import ApiDocs.Proofs.Definer.PlainNames
import ApiDocs.Proofs.Directive

/-!
# References of a document

`Document.references` are the references that occur anywhere in a document: in the properties,
items and values of its definitions, in the schemas of responses, and in the schemas of body
parameters. Where names are plain, each of them is a reference to one of the document's own
definitions, and no member is left without a target (`generate_references_defined`).
-/

namespace ApiDocs

/-! ## References of schemas -/

namespace Schema

mutual

/-- The references of a schema and of all schemas inside it. -/
def references : Schema → List String
  | ⟨reference, _, _, _, _, properties, _, items, additional, _, _, _, _, _, _, _, _, _, _, _⟩ =>
    reference.toList
      ++ (match properties with
          | some members => referencesIn members
          | none => [])
      ++ (match items with
          | some schema => schema.references
          | none => [])
      ++ (match additional with
          | some schema => schema.references
          | none => [])

/-- The references of named schemas. -/
def referencesIn : List (String × Schema) → List String
  | [] => []
  | (_, schema) :: rest => schema.references ++ referencesIn rest

end

theorem mem_referencesIn {table : Table Schema} {reference : String} :
    reference ∈ referencesIn table ↔ ∃ entry ∈ table, reference ∈ entry.2.references := by
  induction table with
  | nil => simp [referencesIn]
  | cons entry rest ih => simp [referencesIn, ih]

theorem references_annotated (schema : Schema) (info : MemberInfo) :
    (schema.annotated info).references = schema.references := by
  cases schema
  rw [annotated, references.eq_def, references.eq_def]

theorem references_withItemBounds (schema : Schema) (v : Validation) :
    (schema.withItemBounds v).references = schema.references := by
  cases schema
  rw [withItemBounds_eq, references.eq_def, references.eq_def]

theorem references_ofBoundedPrimitive (p : TypeText.Primitive) (v : Validation) :
    (ofBoundedPrimitive p v).references = [] := by
  rw [ofBoundedPrimitive]
  split
  · rw [withLengthBounds_eq, ofPrimitive, references]
    rfl
  · split
    · rw [withMagnitudeBounds_eq, ofPrimitive, references]
      rfl
    · rw [ofPrimitive, references]
      rfl

end Schema

/-- The reference is one to a stored definition. -/
def Store.Refers (store : Store) (naming : Naming) (reference : String) : Prop :=
  ∃ d, store.get? d.canonical = some d ∧ reference = "#/definitions/" ++ d.display naming

/-- A member that leads to stored definitions refers to stored definitions only. -/
theorem Member.Leads.refers {store : Store} {m : Member} (leads : m.Leads store) {naming : Naming}
    {reference : String} (among : reference ∈ (m.schema naming).references) :
    store.Refers naming reference := by
  induction m with
  | scalar info text target =>
      rw [schema, Schema.references_annotated, scalarSchema] at among
      cases primitive : TypeText.primitive? text with
      | some p =>
          rw [primitive] at among
          dsimp only at among
          rw [Schema.references_ofBoundedPrimitive] at among
          cases among
      | none =>
          rw [primitive] at among
          dsimp only at among
          cases target with
          | none => cases among
          | some unit =>
              obtain ⟨d, known, rfl, named⟩ :=
                leads unit rfl (by simp [TypeText.isPrimitive, primitive])
              refine ⟨d, known, ?_⟩
              rw [Definition.display, named]
              exact List.mem_singleton.mp among
  | collection info element ih =>
      rw [schema, Schema.references_annotated, Schema.references_withItemBounds] at among
      exact ih leads (by simpa [Schema.array, Schema.references] using among)
  | mapping info key value _ ihValue =>
      rw [schema, Schema.references_annotated, Schema.references_withItemBounds] at among
      exact ihValue leads.2 (by simpa [Schema.array, Schema.references] using among)

/-- The schema of a definition refers to stored definitions only. -/
theorem Definition.refers_of_mem_references {store : Store} {d : Definition}
    (leads : ∀ entry ∈ d.members, entry.2.Leads store) {naming : Naming} {reference : String}
    (among : reference ∈ (d.schema naming).references) : store.Refers naming reference := by
  rw [schema] at among
  cases primitive : TypeText.primitive? d.underlying with
  | some p =>
      rw [primitive] at among
      cases among
  | none =>
      rw [primitive] at among
      have inProperties : reference ∈ Schema.referencesIn (properties naming d.members) := by
        simpa [objectSchema, Schema.references] using among
      obtain ⟨entry, inTable, refers⟩ := Schema.mem_referencesIn.mp inProperties
      obtain ⟨m, inMembers, rfl⟩ := List.mem_map.mp (Table.mem_of_mem_ofList inTable)
      obtain ⟨member, declared, rfl⟩ := List.mem_map.mp inMembers
      exact (leads member declared).refers refers

/-! ## References of documents -/

namespace Document

/-- The references of an operation: those of its body parameters and of its responses. -/
def Operation.references (o : Operation) : List String :=
  o.parameters.flatMap (fun p => (p.schema.map Schema.references).getD [])
    ++ o.responses.values.flatMap fun r => (r.schema.map Schema.references).getD []

/-- The references of a path. -/
def PathItem.references (item : PathItem) : List String :=
  HttpMethod.all.flatMap fun method => ((item.operation? method).map Operation.references).getD []

/-- The references of a document. -/
def references (d : Document) : List String :=
  Schema.referencesIn d.definitions ++ d.paths.values.flatMap PathItem.references

/-- Setting the operation of one method leaves those of the others. -/
theorem PathItem.operation?_withOperation (item : PathItem) (method other : HttpMethod)
    (o : Operation) :
    (item.withOperation method o).operation? other =
      if method = other then some o else item.operation? other := by
  cases method <;> cases other <;> rfl

/-- The operations of a document that comes from `operations` describe some of them. -/
theorem exists_of_operation?_addAll {naming : Naming} {d : Document} (fresh : d.paths = [])
    {operations : List Directive.Operation} {path : String} {item : PathItem}
    (among : (path, item) ∈ (d.addAll naming operations).paths) {method : HttpMethod}
    {o : Operation} (held : item.operation? method = some o) :
    ∃ directive ∈ operations, o = .ofDirective naming directive := by
  -- The invariant of the fold: every operation held so far describes one of `operations`.
  have drawn : ∀ (rest : List Directive.Operation) (d : Document),
      (∀ directive ∈ rest, directive ∈ operations) →
      (∀ entry ∈ d.paths, ∀ m o, entry.2.operation? m = some o →
        ∃ directive ∈ operations, o = .ofDirective naming directive) →
      ∀ entry ∈ (d.addAll naming rest).paths, ∀ m o, entry.2.operation? m = some o →
        ∃ directive ∈ operations, o = .ofDirective naming directive := by
    intro rest
    induction rest with
    | nil => exact fun d _ holds => holds
    | cons first rest ih =>
        intro d ours holds
        refine ih (d.add naming first) (fun o later => ours o (List.mem_cons_of_mem _ later)) ?_
        intro entry inPaths m o given
        rw [add] at inPaths
        split at inPaths
        · exact holds entry inPaths m o given
        · rcases Table.mem_insert inPaths with rfl | old
          · rw [PathItem.operation?_withOperation] at given
            split at given
            · cases given
              exact ⟨first, ours first List.mem_cons_self, rfl⟩
            · rw [itemOf] at given
              cases known : d.paths.get? first.path with
              | none =>
                  rw [known] at given
                  cases m <;> cases given
              | some present =>
                  rw [known] at given
                  exact holds _ (Table.mem_of_get? known) m o given
          · exact holds entry old m o given
  exact drawn operations d (fun _ member => member) (by simp [fresh]) _ among method o held

/-- A described operation has the references of the members that it describes. -/
theorem Operation.exists_of_mem_references {naming : Naming} {o : Directive.Operation}
    {reference : String} (among : reference ∈ (Operation.ofDirective naming o).references) :
    (∃ p ∈ o.parameters, reference ∈ (p.member.schema naming).references) ∨
      ∃ r ∈ o.responses, reference ∈ (r.member.schema naming).references := by
  rcases List.mem_append.mp among with inParameters | inResponses
  · obtain ⟨parameter, described, refers⟩ := List.mem_flatMap.mp inParameters
    obtain ⟨p, declared, rfl⟩ := List.mem_map.mp described
    refine Or.inl ⟨p, declared, ?_⟩
    rw [Parameter.ofDirective] at refers
    dsimp only at refers
    split at refers
    · exact refers
    · cases refers
  · obtain ⟨response, described, refers⟩ := List.mem_flatMap.mp inResponses
    obtain ⟨entry, inTable, rfl⟩ := List.mem_map.mp described
    obtain ⟨r, declared, rfl⟩ := List.mem_map.mp (Table.mem_of_mem_ofList inTable)
    exact Or.inr ⟨r, declared, refers⟩

end Document

/-! ## Contents -/

/-- The members of an operation. -/
def Directive.Operation.members (o : Directive.Operation) : List Member :=
  o.responses.map (·.member) ++ o.parameters.map (·.member)

namespace Contents

/-- All members that the document describes. -/
def members (contents : Contents) : List Member :=
  contents.operations.flatMap Directive.Operation.members
    ++ contents.store.definitions.values.flatMap (·.members.values)

/-- Every reference of the contents has a target, and every target leads to a definition. -/
structure Linked (contents : Contents) : Prop where
  targeted : ∀ m ∈ contents.members, m.unresolved = []
  leads : ∀ m ∈ contents.members, m.Leads contents.store

theorem Linked.leads_of_stored {contents : Contents} (linked : contents.Linked) {d : Definition}
    (known : d ∈ contents.store.definitions.values) :
    ∀ entry ∈ d.members, entry.2.Leads contents.store := fun _ among =>
  linked.leads _ (List.mem_append_right _
    (List.mem_flatMap.mpr ⟨d, known, List.mem_map_of_mem among⟩))

theorem Linked.leads_of_operation {contents : Contents} (linked : contents.Linked)
    {o : Directive.Operation} (among : o ∈ contents.operations) :
    ∀ m ∈ o.members, m.Leads contents.store := fun _ present =>
  linked.leads _ (List.mem_append_left _ (List.mem_flatMap.mpr ⟨o, among, present⟩))

/-- In a document of linked contents every reference is to a stored definition. -/
theorem Linked.refers {contents : Contents} (linked : contents.Linked) {naming : Naming}
    {reference : String} (among : reference ∈ (contents.document naming).references) :
    contents.store.Refers naming reference := by
  rcases List.mem_append.mp among with inDefinitions | inPaths
  · obtain ⟨entry, inTable, refers⟩ := Schema.mem_referencesIn.mp inDefinitions
    obtain ⟨d, known, rfl⟩ := List.mem_map.mp (Table.mem_of_mem_ofList inTable)
    exact Definition.refers_of_mem_references (linked.leads_of_stored known) refers
  · obtain ⟨item, held, refers⟩ := List.mem_flatMap.mp inPaths
    obtain ⟨entry, inTable, rfl⟩ := List.mem_map.mp held
    obtain ⟨method, _, inOperation⟩ := List.mem_flatMap.mp refers
    cases described : entry.2.operation? method with
    | none =>
        rw [described] at inOperation
        cases inOperation
    | some operation =>
        rw [described] at inOperation
        obtain ⟨o, declared, rfl⟩ := Document.exists_of_operation?_addAll
          (d := Document.ofApi contents.api) rfl inTable described
        have leads := linked.leads_of_operation declared
        rcases Document.Operation.exists_of_mem_references inOperation with
          ⟨p, present, inSchema⟩ | ⟨r, present, inSchema⟩
        · exact (leads _ (List.mem_append_right _ (List.mem_map_of_mem present))).refers inSchema
        · exact (leads _ (List.mem_append_left _ (List.mem_map_of_mem present))).refers inSchema

/-- A stored definition is a definition of the document. -/
theorem mem_keys_definitions (contents : Contents) {naming : Naming} {name : String}
    {d : Definition} (known : contents.store.get? name = some d) :
    d.display naming ∈ (contents.document naming).definitions.keys := by
  refine Table.mem_keys_ofList.mpr (List.mem_map.mpr ⟨(d.display naming, d.schema naming), ?_, rfl⟩)
  exact List.mem_map.mpr ⟨d, List.mem_map_of_mem (Table.mem_of_get? known), rfl⟩

end Contents

end ApiDocs
