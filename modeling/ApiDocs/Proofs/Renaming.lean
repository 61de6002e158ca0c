import ApiDocs.Proofs.Generation
import ApiDocs.Proofs.Independence
import ApiDocs.Proofs.Text

/-!
# Naming schemes

A naming scheme decides under which names a document defines and refers to types, and nothing else.
`Document.renamed` replaces the names of definitions: in the keys and titles of the definitions and
in all references. If the names of the stored definitions are distinct under two schemes, the
document of the one is the renamed document of the other (`Contents.Linked.document_renamed`); and
generation fails under both or none (`generate_renames`).
-/

namespace ApiDocs

/-! ## Renamed documents -/

namespace Schema

/-- The reference with the name of its definition replaced. -/
def renamedReference (rename : String → String) (reference : String) : String :=
  match Text.after? "#/definitions/".toList reference.toList with
  | some name => "#/definitions/" ++ rename (.ofList name)
  | none => reference

mutual

/-- The schema with all references replaced, also in the schemas inside it. -/
def renamed (rename : String → String) : Schema → Schema
  | ⟨reference, kind, format, title, description, properties, required, items, additional,
      enumeration, minLength, maxLength, pattern, minimum, exclusiveMinimum, maximum,
      exclusiveMaximum, minItems, maxItems, deprecated⟩ =>
    { reference := reference.map (renamedReference rename)
      properties := match properties with
        | some members => some (renamedIn rename members)
        | none => none
      items := match items with
        | some schema => some (schema.renamed rename)
        | none => none
      additional := match additional with
        | some schema => some (schema.renamed rename)
        | none => none
      kind, format, title, description, required, enumeration, minLength, maxLength, pattern,
      minimum, exclusiveMinimum, maximum, exclusiveMaximum, minItems, maxItems, deprecated }

/-- Named schemas with all references replaced. -/
def renamedIn (rename : String → String) : List (String × Schema) → List (String × Schema)
  | [] => []
  | (name, schema) :: rest => (name, schema.renamed rename) :: renamedIn rename rest

end

/-- The schema of a definition, whose title is a name too, renamed. -/
def renamedDefinition (rename : String → String) (schema : Schema) : Schema :=
  { schema.renamed rename with title := schema.title.map rename }

end Schema

namespace Document

/-- The operation with all references replaced. -/
def Operation.renamed (rename : String → String) (o : Operation) : Operation :=
  { o with
    parameters := o.parameters.map fun p => { p with schema := p.schema.map (·.renamed rename) }
    responses := o.responses.mapValues fun r =>
      { r with schema := r.schema.map (·.renamed rename) } }

/-- The operations of a path with all references replaced. -/
def PathItem.renamed (rename : String → String) (item : PathItem) : PathItem where
  get := item.get.map (·.renamed rename)
  put := item.put.map (·.renamed rename)
  post := item.post.map (·.renamed rename)
  delete := item.delete.map (·.renamed rename)
  options := item.options.map (·.renamed rename)
  head := item.head.map (·.renamed rename)
  patch := item.patch.map (·.renamed rename)

/-- The document with the names of definitions replaced: in their keys, in their titles and in all
references. -/
def renamed (rename : String → String) (d : Document) : Document :=
  { d with
    paths := d.paths.mapValues (·.renamed rename)
    definitions := .ofList (d.definitions.map fun entry =>
      (rename entry.1, entry.2.renamedDefinition rename)) }

end Document

namespace Store

/-- The names of the stored definitions in a document. -/
def displays (store : Store) (naming : Naming) : List String :=
  store.definitions.values.map (·.display naming)

/-- Takes the name of a stored definition under the first scheme to its name under the second. -/
def rename (store : Store) (naming naming' : Naming) (name : String) : String :=
  (Table.get? (store.definitions.values.map fun d => (d.display naming, d.display naming'))
    name).getD name

/-- Names that are shown once each are renamed to the names of the same definitions. -/
theorem rename_display {store : Store} {naming : Naming} (distinct : (store.displays naming).Nodup)
    (naming' : Naming) {d : Definition} (among : d ∈ store.definitions.values) :
    store.rename naming naming' (d.display naming) = d.display naming' := by
  have once : (Table.keys (store.definitions.values.map fun d =>
      (d.display naming, d.display naming'))).Nodup := by
    rw [Table.keys, List.map_map]
    exact distinct
  have present : (d.display naming, d.display naming') ∈
      store.definitions.values.map fun d => (d.display naming, d.display naming') :=
    List.mem_map_of_mem among
  rw [rename, Table.get?_of_mem once present, Option.getD_some]

end Store

/-! ## Schemas -/

namespace Schema

variable (rename : String → String)

/-- A reference is renamed behind the place of definitions. -/
theorem renamedReference_append (name : String) :
    renamedReference rename ("#/definitions/" ++ name) = "#/definitions/" ++ rename name := by
  have marked : Text.after? "#/definitions/".toList ("#/definitions/" ++ name).toList =
      some name.toList := by
    rw [String.toList_append]
    exact Text.after?_append _ _
  rw [renamedReference, marked]
  dsimp only
  rw [String.ofList_toList]

theorem renamed_ofReference (name : String) :
    (ofReference name).renamed rename = ofReference (rename name) := by
  rw [ofReference, ofReference, ← renamedReference_append, renamed.eq_def]
  rfl

theorem renamedIn_eq (table : Table Schema) :
    renamedIn rename table = table.mapValues (renamed rename) := by
  induction table with
  | nil => rfl
  | cons entry rest ih =>
      rw [renamedIn, ih]
      rfl

theorem renamed_annotated (schema : Schema) (info : MemberInfo) :
    (schema.annotated info).renamed rename = (schema.renamed rename).annotated info := by
  cases schema
  rw [annotated, renamed.eq_def, renamed.eq_def]
  rfl

theorem renamed_withItemBounds (schema : Schema) (v : Validation) :
    (schema.withItemBounds v).renamed rename = (schema.renamed rename).withItemBounds v := by
  cases schema
  rw [withItemBounds_eq, withItemBounds_eq, renamed.eq_def, renamed.eq_def]

theorem renamedDefinition_titled (schema : Schema) (title : String) (description : Option String) :
    renamedDefinition rename { schema with title := some title, description } =
      { schema.renamed rename with title := some (rename title), description } := by
  cases schema
  rw [renamedDefinition, renamed.eq_def, renamed.eq_def]
  rfl

theorem renamed_primitiveSchema (p : TypeText.Primitive) (values : Option (List String)) :
    (Definition.primitiveSchema p values).renamed rename = Definition.primitiveSchema p values := by
  unfold Definition.primitiveSchema
  rw [ofPrimitive, renamed.eq_def]
  rfl

theorem renamed_ofBoundedPrimitive (p : TypeText.Primitive) (v : Validation) :
    (ofBoundedPrimitive p v).renamed rename = ofBoundedPrimitive p v := by
  rw [ofBoundedPrimitive]
  split
  · rw [withLengthBounds_eq, ofPrimitive, renamed.eq_def]
    rfl
  · split
    · rw [withMagnitudeBounds_eq, ofPrimitive, renamed.eq_def]
      rfl
    · rw [ofPrimitive, renamed.eq_def]
      rfl

end Schema

section

variable {store : Store} {naming naming' : Naming} {rename : String → String}
  (renames : ∀ d ∈ store.definitions.values, rename (d.display naming) = d.display naming')

include renames

/-- The schema of a member whose targets are stored, under another scheme. -/
theorem Member.Leads.schema_renamed {m : Member} (leads : m.Leads store) :
    m.schema naming' = (m.schema naming).renamed rename := by
  induction m with
  | scalar info text target =>
      rw [schema, schema, Schema.renamed_annotated, scalarSchema, scalarSchema]
      cases primitive : TypeText.primitive? text with
      | some p =>
          dsimp only
          rw [Schema.renamed_ofBoundedPrimitive]
      | none =>
          cases target with
          | none => rfl
          | some unit =>
              obtain ⟨d, known, rfl, named⟩ :=
                leads unit rfl (by simp [TypeText.isPrimitive, primitive])
              have stored : d ∈ store.definitions.values :=
                List.mem_map_of_mem (Table.mem_of_get? known)
              have names : ∀ scheme : Naming, targetName? scheme text (some d.target) =
                  some (d.display scheme) := by
                intro scheme
                rw [Definition.display, named]
                rfl
              rw [names, names]
              dsimp only
              rw [Schema.renamed_ofReference, renames d stored]
  | collection info element ih =>
      rw [schema, schema, Schema.renamed_annotated, Schema.renamed_withItemBounds, ih leads]
      rfl
  | mapping info key value _ ihValue =>
      rw [schema, schema, Schema.renamed_annotated, Schema.renamed_withItemBounds, ihValue leads.2]
      rfl

/-- The schemas of objects differ by the renaming only. -/
theorem Definition.objectSchema_renamed {members : Table Member}
    (leads : ∀ entry ∈ members, entry.2.Leads store) :
    objectSchema naming' members = (objectSchema naming members).renamed rename := by
  have described : properties naming' members =
      Schema.renamedIn rename (properties naming members) := by
    rw [Schema.renamedIn_eq, properties, properties, Table.mapValues_ofList, Table.mapValues,
      List.map_map]
    congr 1
    refine List.map_congr_left fun m present => ?_
    obtain ⟨entry, among, rfl⟩ := List.mem_map.mp present
    exact Prod.ext rfl ((leads entry among).schema_renamed renames)
  unfold objectSchema
  rw [described, Schema.renamed.eq_def]
  rfl

/-- The schemas of definitions differ by the renaming only. -/
theorem Definition.schema_renamed {d : Definition}
    (leads : ∀ entry ∈ d.members, entry.2.Leads store) (among : d ∈ store.definitions.values) :
    d.schema naming' = (d.schema naming).renamedDefinition rename := by
  unfold schema
  rw [Schema.renamedDefinition_titled, renames d among]
  cases TypeText.primitive? d.underlying with
  | some p =>
      dsimp only
      rw [Schema.renamed_primitiveSchema]
  | none =>
      dsimp only
      rw [objectSchema_renamed renames leads]

/-! ## Documents -/

namespace Document

/-- Operations differ by the renaming only. -/
theorem Operation.ofDirective_renamed {o : Directive.Operation}
    (leads : ∀ m ∈ o.members, m.Leads store) :
    Operation.ofDirective naming' o = (Operation.ofDirective naming o).renamed rename := by
  have parameters : o.parameters.map (Parameter.ofDirective naming') =
      (o.parameters.map (Parameter.ofDirective naming)).map fun p =>
        { p with schema := p.schema.map (·.renamed rename) } := by
    rw [List.map_map]
    refine List.map_congr_left fun p among => ?_
    have described := (leads _ (List.mem_append_right _ (List.mem_map_of_mem among))).schema_renamed
      renames
    rw [Function.comp_apply, Parameter.ofDirective, Parameter.ofDirective, described]
    split <;> rfl
  have responses : responseTable naming' o.responses =
      (responseTable naming o.responses).mapValues fun r =>
        { r with schema := r.schema.map (·.renamed rename) } := by
    rw [responseTable, responseTable, Table.mapValues_ofList, Table.mapValues, List.map_map]
    congr 1
    refine List.map_congr_left fun r among => ?_
    have described := (leads _ (List.mem_append_left _ (List.mem_map_of_mem among))).schema_renamed
      renames
    rw [described]
    rfl
  rw [Operation.ofDirective, Operation.ofDirective, Operation.renamed, parameters, responses]

/-- Adding an operation commutes with renaming. -/
theorem add_renamed (d : Document) {o : Directive.Operation}
    (leads : ∀ m ∈ o.members, m.Leads store) :
    (d.renamed rename).add naming' o = (d.add naming o).renamed rename := by
  rw [add, add]
  cases HttpMethod.read? o.method with
  | none => rfl
  | some method =>
      have item : (d.renamed rename).itemOf o.path = (d.itemOf o.path).renamed rename := by
        rw [itemOf, itemOf, renamed, Table.get?_mapValues]
        cases d.paths.get? o.path <;> rfl
      have put : ∀ (item : PathItem) (described : Operation),
          (item.withOperation method described).renamed rename =
            (item.renamed rename).withOperation method (described.renamed rename) := by
        intro item described
        cases method <;> rfl
      dsimp only
      rw [item, Operation.ofDirective_renamed renames leads, ← put]
      unfold renamed
      rw [Table.mapValues_insert]

/-- Adding operations commutes with renaming. -/
theorem addAll_renamed (d : Document) {operations : List Directive.Operation}
    (leads : ∀ o ∈ operations, ∀ m ∈ o.members, m.Leads store) :
    (d.renamed rename).addAll naming' operations = (d.addAll naming operations).renamed rename := by
  induction operations generalizing d with
  | nil => rfl
  | cons o operations ih =>
      rw [addAll, List.foldl_cons, add_renamed renames d (leads o List.mem_cons_self)]
      exact ih _ fun other later => leads other (List.mem_cons_of_mem _ later)

end Document

end

/-- Definitions with distinct names under both schemes are the same up to renaming. -/
theorem Store.schemas_renamed {store : Store} {naming naming' : Naming}
    (distinct : (store.displays naming).Nodup) (distinct' : (store.displays naming').Nodup)
    (leads : ∀ d ∈ store.definitions.values, ∀ entry ∈ d.members, entry.2.Leads store) :
    store.schemas naming' = .ofList ((store.schemas naming).map fun entry =>
      (store.rename naming naming' entry.1,
        entry.2.renamedDefinition (store.rename naming naming'))) := by
  have renames := fun d among => store.rename_display distinct naming' (d := d) among
  have once : ∀ {scheme : Naming}, (store.displays scheme).Nodup →
      ((store.definitions.values.map fun d => (d.display scheme, d.schema scheme)).map
        Prod.fst).Nodup := by
    intro scheme distinct
    rw [List.map_map]
    exact distinct
  have entries : store.definitions.values.map (fun d => (d.display naming', d.schema naming')) =
      (store.definitions.values.map fun d => (d.display naming, d.schema naming)).map fun entry =>
        (store.rename naming naming' entry.1,
          entry.2.renamedDefinition (store.rename naming naming')) := by
    rw [List.map_map]
    refine List.map_congr_left fun d among => ?_
    exact Prod.ext (renames d among).symm (d.schema_renamed renames (leads d among) among)
  rw [schemas, schemas]
  refine Table.ofList_eq_of_perm ?_ (once distinct')
  rw [entries]
  exact ((Table.ofList_perm (once distinct)).map _).symm

/-- The documents of linked contents under two schemes, each of which tells the definitions apart,
are the same up to renaming. -/
theorem Contents.Linked.document_renamed {contents : Contents} (linked : contents.Linked)
    {naming naming' : Naming} (distinct : (contents.store.displays naming).Nodup)
    (distinct' : (contents.store.displays naming').Nodup) :
    contents.document naming' =
      (contents.document naming).renamed (contents.store.rename naming naming') := by
  have renames := fun d among => contents.store.rename_display distinct naming' (d := d) among
  have operations := Document.addAll_renamed renames (Document.ofApi contents.api)
    fun o among => linked.leads_of_operation among
  have definitions := Store.schemas_renamed distinct distinct' fun d among =>
    linked.leads_of_stored among
  have same : (Document.ofApi contents.api).renamed (contents.store.rename naming naming') =
      Document.ofApi contents.api := rfl
  rw [same] at operations
  rw [document, document, operations, definitions]
  rfl

/-! ## Generation -/

/-- The naming is used only after everything has been collected. -/
theorem generate_fst (configuration : Configuration) (loader : Loader) (journal : Journal) :
    (generate configuration loader journal).1 =
      (Contents.collect configuration loader journal).1.map (·.document configuration.naming) := by
  refine Ends.fst_eq (Ends.bind (Ends.of_cases (fun contents left ran => ?_)
    fun failure left ran => ?_))
  · rw [ran]
    exact Ends.bind (Ends.modify (Ends.pure rfl))
  · rw [ran]
    rfl

/-- Generation under two naming schemes, at any time, fails with the same failure or succeeds with
documents of the same contents; and if the stored definitions have distinct names under both, the
second document is the first with these names replaced. -/
theorem generate_renames (loader : Loader) (unchanging : loader.Unchanging)
    (plain : loader.IsPlain) (root : ImportPath) (ignore : List String) (naming naming' : Naming)
    (journal journal' : Journal) :
    (∀ failure, (generate ⟨root, naming, ignore⟩ loader journal).1 = .error failure ↔
      (generate ⟨root, naming', ignore⟩ loader journal').1 = .error failure) ∧
    ∀ document, (generate ⟨root, naming, ignore⟩ loader journal).1 = .ok document →
      ∃ document' contents,
        (generate ⟨root, naming', ignore⟩ loader journal').1 = .ok document' ∧
        (Contents.collect ⟨root, naming, ignore⟩ loader journal).1 = .ok contents ∧
        ((contents.store.displays naming).Nodup → (contents.store.displays naming').Nodup →
          document' = document.renamed (contents.store.rename naming naming')) := by
  have same := Contents.collect_steady unchanging root ignore naming naming' journal journal'
  have first := generate_fst ⟨root, naming, ignore⟩ loader journal
  have second := generate_fst ⟨root, naming', ignore⟩ loader journal'
  have linked := Contents.collect_ends ⟨root, naming, ignore⟩ plain journal
  rw [← same] at second
  rw [first, second]
  generalize Contents.collect ⟨root, naming, ignore⟩ loader journal = run at linked ⊢
  obtain ⟨failure | contents, left⟩ := run
  · dsimp only [Except.map]
    exact ⟨fun _ => Iff.rfl, nofun⟩
  · refine ⟨fun _ => ⟨nofun, nofun⟩, fun document generated => ?_⟩
    cases generated
    exact ⟨_, contents, rfl, rfl, (linked.ok rfl).document_renamed⟩

theorem generate_renames_users :
    (Loader.fixed userUnits).Unchanging ∧ (Loader.fixed userUnits).IsPlain ∧
    ∃ document document' contents,
      (generate ⟨"app", .full, []⟩ (.fixed userUnits) {}).1 = .ok document ∧
      (generate ⟨"app", .simple, []⟩ (.fixed userUnits) { loads := ["app"] }).1 = .ok document' ∧
      (Contents.collect ⟨"app", .full, []⟩ (.fixed userUnits) {}).1 = .ok contents ∧
      contents.store.displays .full = ["lib.models.Base", "lib.models.Tag", "lib.models.User"] ∧
      contents.store.displays .simple = ["Base", "Tag", "User"] ∧
      document' = document.renamed (contents.store.rename .full .simple) := by
  have unchanging := Loader.unchanging_fixed userUnits
  have plain : (Loader.fixed userUnits).IsPlain := Loader.isPlain_fixed (by decide +kernel)
  have named : (Contents.collect ⟨"app", .full, []⟩ (.fixed userUnits) {}).1.toOption.map
      (fun contents => (contents.store.displays .full, contents.store.displays .simple)) =
      some (["lib.models.Base", "lib.models.Tag", "lib.models.User"], ["Base", "Tag", "User"]) := by
    decide +kernel
  obtain ⟨contents, left, ran, names⟩ := exists_of_toOption named
  obtain ⟨full, simple⟩ := Prod.mk.inj names
  have generated := generate_fst ⟨"app", .full, []⟩ (.fixed userUnits) {}
  rw [ran] at generated
  obtain ⟨_, succeeds⟩ := generate_renames (.fixed userUnits) unchanging plain "app" [] .full
    .simple {} { loads := ["app"] }
  obtain ⟨document', collected, generated', ran', renamed⟩ := succeeds _ generated
  rw [ran] at ran'
  cases ran'
  refine ⟨unchanging, plain, _, document', contents, generated, generated', by rw [ran], full,
    simple, renamed ?_ ?_⟩
  · rw [full]
    decide
  · rw [simple]
    decide

end ApiDocs
