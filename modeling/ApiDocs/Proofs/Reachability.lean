import ApiDocs.Proofs.Member
import ApiDocs.Proofs.Resolution
import Mathlib.Logic.Relation

/-!
# What declarations refer to

The declarations of a scope, with what their references resolve to, form a graph of their own, and
nothing here depends on the order in which types are defined. `Embeds` is the part of it that
flattening follows. A definition draws the members of all that it embeds, directly or not, so it
makes their references as well as its own (`Makes`); `Reached` is what can be reached from the
references `roots` of some calls, and `Met` the references that are seen on the way.

The store answers a reference by name. `Clear` says that this cannot go wrong among the types that
are reached.
-/

namespace ApiDocs.Scope

variable (scope : Scope)

/-! ## Embedding -/

/-- The types that embedded texts of a unit stand for, in order. -/
def typesOf (path : ImportPath) (texts : List String) : List Definition :=
  (texts.filter isMergeable).filterMap (scope.resolved? path)

/-- The types that a definition embeds, in order. -/
def embeddedTypes (d : Definition) : List Definition := scope.typesOf d.importPath d.embedded

/-- The first definition embeds the second. -/
def Embeds (d u : Definition) : Prop := u ∈ scope.embeddedTypes d

/-- The second definition is the first, or embedded in it at any depth. -/
abbrev Contains : Definition → Definition → Prop := Relation.ReflTransGen scope.Embeds

/-! ## References -/

/-- The references of a definition, each with the unit that it is looked up in: the texts that it
embeds, and those of the members that it has or draws. -/
inductive Makes (d : Definition) : ImportPath → String → Prop
  | embedded {text : String} :
    text ∈ d.embedded → isMergeable text = true → Makes d d.importPath text
  | member {v : Definition} {entry : String × Member} {text : String} :
    scope.Contains d v → entry ∈ v.members → text ∈ entry.2.references →
    Makes d (referringUnit d.importPath entry.2) text

/-- A reference of the first definition resolves to the second. -/
def Refers (d e : Definition) : Prop :=
  ∃ referring text, scope.Makes d referring text ∧ scope.resolved? referring text = some e

/-- The definitions that can be reached from some references. -/
inductive Reached (roots : ImportPath → String → Prop) : Definition → Prop
  | root {referring : ImportPath} {text : String} {d : Definition} :
    roots referring text → scope.resolved? referring text = some d → Reached roots d
  | step {d e : Definition} : Reached roots d → scope.Refers d e → Reached roots e

/-- The references are for one definition alone. -/
def Alone (roots : ImportPath → String → Prop) (u : Definition) : Prop :=
  ∀ referring text, roots referring text → scope.resolved? referring text = some u

/-- The references that are met on the way. -/
def Met (roots : ImportPath → String → Prop) (referring : ImportPath) (text : String) : Prop :=
  roots referring text ∨ ∃ d, scope.Reached roots d ∧ scope.Makes d referring text

/-- No name misleads: if a candidate for a reference gives it the name of a type, the reference
resolves to that type. -/
def Clear (roots : ImportPath → String → Prop) : Prop :=
  ∀ referring text path e, scope.Met roots referring text →
    path ∈ scope.graph.candidates referring (TypeText.reference text) → scope.Reached roots e →
    e.canonical = canonicalName path (TypeText.reference text).name →
    scope.resolved? referring text = some e

variable {scope} {roots : ImportPath → String → Prop}

theorem embeds_iff {d u : Definition} : scope.Embeds d u ↔
    ∃ text ∈ d.embedded, isMergeable text = true ∧ scope.resolved? d.importPath text = some u := by
  rw [Embeds, embeddedTypes, typesOf, List.mem_filterMap]
  constructor
  · rintro ⟨text, kept, resolves⟩
    obtain ⟨among, mergeable⟩ := List.mem_filter.mp kept
    exact ⟨text, among, mergeable, resolves⟩
  · rintro ⟨text, among, mergeable, resolves⟩
    exact ⟨text, List.mem_filter.mpr ⟨among, mergeable⟩, resolves⟩

theorem Embeds.refers {d u : Definition} (embeds : scope.Embeds d u) : scope.Refers d u := by
  obtain ⟨text, among, mergeable, resolves⟩ := embeds_iff.mp embeds
  exact ⟨_, text, .embedded among mergeable, resolves⟩

theorem Met.reached {referring : ImportPath} {text : String} {d : Definition}
    (met : scope.Met roots referring text) (resolves : scope.resolved? referring text = some d) :
    scope.Reached roots d := by
  rcases met with called | ⟨from_, reached, makes⟩
  · exact .root called resolves
  · exact .step reached ⟨referring, text, makes, resolves⟩

/-- What is reached is declared as it is. -/
theorem Reached.declared (unchanging : scope.loader.Unchanging) {d : Definition}
    (reached : scope.Reached roots d) : scope.declared d.importPath d.name = .ok (some d) := by
  cases reached with
  | root _ resolves => exact (declared_of_resolved? unchanging resolves).2.2
  | step _ refers =>
      obtain ⟨_, _, _, resolves⟩ := refers
      exact (declared_of_resolved? unchanging resolves).2.2

/-- A list that is closed under embedding and under the references of members is closed under all
references. -/
theorem mem_of_refers {known : List Definition}
    (embedded : ∀ d ∈ known, ∀ u ∈ scope.embeddedTypes d, u ∈ known)
    (members : ∀ d ∈ known, ∀ v ∈ known, ∀ entry ∈ v.members, ∀ text ∈ entry.2.references,
      (scope.resolved? (referringUnit d.importPath entry.2) text).all (· ∈ known) = true)
    {d e : Definition} (among : d ∈ known) (refers : scope.Refers d e) : e ∈ known := by
  have inside : ∀ {v : Definition}, scope.Contains d v → v ∈ known := by
    intro v contains
    induction contains with
    | refl => exact among
    | tail _ embeds ih => exact embedded _ ih _ embeds
  obtain ⟨referring, text, makes, resolves⟩ := refers
  cases makes with
  | embedded present mergeable =>
      exact embedded d among e (embeds_iff.mpr ⟨text, present, mergeable, resolves⟩)
  | @member v entry _ contains present refers =>
      have checked := members d among v (inside contains) entry present text refers
      rw [resolves] at checked
      exact of_decide_eq_true checked

end ApiDocs.Scope
