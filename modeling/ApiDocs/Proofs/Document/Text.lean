import ApiDocs.Proofs.Document

/-!
# Documents and their texts

The value of a document has no other numbers than the document (`Document.isIntegral_fields`). If
they are integers, what is written for the value is read as the value, so the JSON text of the
document is read as the document (`document_read_back`).
-/

namespace ApiDocs

/-! ## Documents with integers -/

/-- The number is an integer. -/
def Numeral.isInteger : Numeral → Bool
  | .integer _ => true
  | .float _ => false

namespace Schema

mutual

/-- All numbers in the schema and in those inside it are integers. -/
def isIntegral : Schema → Bool
  | ⟨_, _, _, _, _, properties, _, items, additional, enumeration, _, _, _, minimum, _, maximum,
      _, _, _, _⟩ =>
    membersIntegral properties && optionIntegral items && optionIntegral additional
      && enumeration.all (·.all Value.isIntegral) && minimum.all Numeral.isInteger
      && maximum.all Numeral.isInteger

/-- All numbers in a schema that may be absent are integers. -/
def optionIntegral : Option Schema → Bool
  | some schema => schema.isIntegral
  | none => true

/-- All numbers in the properties are integers. -/
def membersIntegral : Option (List (String × Schema)) → Bool
  | some members => tableIntegral members
  | none => true

/-- All numbers in named schemas are integers. -/
def tableIntegral : List (String × Schema) → Bool
  | [] => true
  | (_, schema) :: rest => schema.isIntegral && tableIntegral rest

end

end Schema

namespace Document

/-- All numbers in the operation are integers. -/
def Operation.isIntegral (o : Operation) : Bool :=
  (o.parameters.all fun p => p.schema.all Schema.isIntegral) &&
    o.responses.all fun entry => entry.2.schema.all Schema.isIntegral

/-- All numbers in the operations of the path are integers. -/
def PathItem.isIntegral (item : PathItem) : Bool :=
  HttpMethod.all.all fun method => (item.operation? method).all Operation.isIntegral

/-- All numbers in the document are integers. -/
def isIntegral (d : Document) : Bool :=
  (d.paths.all fun entry => entry.2.isIntegral) && Schema.tableIntegral d.definitions

end Document

namespace Value

/-- The fields that are set decide whether a record has only integers. -/
theorem isIntegral_ofEntries {entries : Table (Option Value)}
    (each : ∀ entry ∈ entries, entry.2.all isIntegral = true) :
    (Value.record (ofEntries entries)).isIntegral = true := by
  refine fieldsIntegral_iff.mpr fun field among => ?_
  obtain ⟨entry, listed, given⟩ := List.mem_flatMap.mp among
  have integral := each entry listed
  cases value : entry.2 with
  | none =>
      rw [value] at given
      cases given
  | some value' =>
      rw [value] at given integral
      rw [List.mem_singleton.mp given]
      exact integral

/-- A list has only integers if its items do. -/
theorem isIntegral_list {α : Type} {write : α → Value} {xs : List α}
    (each : ∀ x ∈ xs, (write x).isIntegral = true) :
    (Value.list (xs.map write)).isIntegral = true :=
  itemsIntegral_iff.mpr (List.forall_mem_map.mpr each)

theorem isIntegral_table {α : Type} {write : α → Value} {xs : Table α}
    (each : ∀ entry ∈ xs, (write entry.2).isIntegral = true) :
    (table write xs).isIntegral = true :=
  fieldsIntegral_iff.mpr (List.forall_mem_map.mpr each)

theorem all_map_of_forall {α : Type} {write : α → Value} (x : Option α)
    (each : ∀ y ∈ x, (write y).isIntegral = true) : (x.map write).all isIntegral = true := by
  cases x with
  | none => rfl
  | some y => exact each y rfl

/-- A list that is left out has no numbers. -/
theorem all_nonempty?_of {α : Type} (write : List α → Value) {xs : List α}
    (integral : (write xs).isIntegral = true) : (nonempty? write xs).all isIntegral = true := by
  rw [nonempty?]
  split
  · rfl
  · exact integral

theorem isIntegral_texts (xs : List String) : (texts xs).isIntegral = true :=
  isIntegral_list fun _ _ => rfl

@[simp] theorem isIntegral_text (s : String) : (text s).isIntegral = true := rfl

@[simp] theorem isIntegral_flag (b : Bool) : (flag b).isIntegral = true := rfl

@[simp] theorem all_map_text (x : Option String) : (x.map text).all isIntegral = true :=
  all_map_of_forall x fun _ _ => rfl

@[simp] theorem all_map_flag (x : Option Bool) : (x.map flag).all isIntegral = true :=
  all_map_of_forall x fun _ _ => rfl

@[simp] theorem all_map_integer (x : Option Int) : (x.map integer).all isIntegral = true :=
  all_map_of_forall x fun _ _ => rfl

@[simp] theorem all_map_texts (x : Option (List String)) : (x.map texts).all isIntegral = true :=
  all_map_of_forall x fun xs _ => isIntegral_texts xs

@[simp] theorem all_nonempty?_texts (xs : List String) :
    (nonempty? texts xs).all isIntegral = true :=
  all_nonempty?_of texts (isIntegral_texts xs)

end Value

namespace Schema

/-- Bounds that are integers are written as integers. -/
theorem all_map_number {x : Option Numeral} (integers : x.all Numeral.isInteger = true) :
    (x.map Value.number).all Value.isIntegral = true := by
  refine Value.all_map_of_forall x fun n same => ?_
  cases same
  cases n with
  | integer n => rfl
  | float x => cases integers

theorem all_map_list {x : Option (List Value)} (values : x.all (·.all Value.isIntegral) = true) :
    (x.map Value.list).all Value.isIntegral = true := by
  refine Value.all_map_of_forall x fun items same => ?_
  cases same
  exact Value.itemsIntegral_iff.mpr (List.all_eq_true.mp values)

mutual

/-- The value of a schema has no other numbers than the schema. -/
theorem isIntegral_toValue : (s : Schema) → s.isIntegral = true → s.toValue.isIntegral = true
  | ⟨reference, kind, format, title, description, properties, required, items, additional,
      enumeration, minLength, maxLength, pattern, minimum, exclusiveMinimum, maximum,
      exclusiveMaximum, minItems, maxItems, deprecated⟩ => by
    intro integral
    simp only [isIntegral, Bool.and_eq_true] at integral
    obtain ⟨⟨⟨⟨⟨members, inItems⟩, others⟩, values⟩, least⟩, most⟩ := integral
    refine Value.isIntegral_ofEntries ?_
    simp [entries, all_membersValue? properties members, all_value? items inItems,
      all_value? additional others, all_map_list values, all_map_number least, all_map_number most]

/-- A schema inside of another one is written with integers alone if its numbers are integers. -/
theorem all_value? : (x : Option Schema) → optionIntegral x = true →
    (value? x).all Value.isIntegral = true
  | none => fun _ => rfl
  | some schema => isIntegral_toValue schema

theorem all_membersValue? : (x : Option (List (String × Schema))) → membersIntegral x = true →
    (membersValue? x).all Value.isIntegral = true
  | none => fun _ => rfl
  | some members => isIntegral_memberFields members

/-- Members of a schema are written with integers alone if their numbers are integers. -/
theorem isIntegral_memberFields : (table : List (String × Schema)) → tableIntegral table = true →
    (Value.record (memberFields table)).isIntegral = true
  | [] => fun _ => rfl
  | (name, schema) :: table => by
    intro integral
    obtain ⟨first, later⟩ := Bool.and_eq_true_iff.mp integral
    exact Bool.and_eq_true_iff.mpr
      ⟨isIntegral_toValue schema first, isIntegral_memberFields table later⟩

end

theorem all_map_toValue {x : Option Schema} (integral : x.all isIntegral = true) :
    (x.map toValue).all Value.isIntegral = true := by
  refine Value.all_map_of_forall x fun schema same => ?_
  cases same
  exact isIntegral_toValue schema integral

end Schema

namespace Document

/-- An operation whose schemas have only integers is written with integers alone. -/
theorem Operation.isIntegral_toValue {o : Operation} (integral : o.isIntegral = true) :
    o.toValue.isIntegral = true := by
  obtain ⟨inParameters, inResponses⟩ := Bool.and_eq_true_iff.mp integral
  have parameters : (Value.list (o.parameters.map Parameter.toValue)).isIntegral = true := by
    refine Value.isIntegral_list fun p among => Value.isIntegral_ofEntries ?_
    have schema := Schema.all_map_toValue (List.all_eq_true.mp inParameters p among)
    simp [Parameter.entries, schema]
  have responses : (Value.table Response.toValue o.responses).isIntegral = true := by
    refine Value.isIntegral_table fun entry among => Value.isIntegral_ofEntries ?_
    have schema := Schema.all_map_toValue (List.all_eq_true.mp inResponses entry among)
    simp [Response.entries, schema]
  have listed := Value.all_nonempty?_of (fun ps => .list (ps.map Parameter.toValue)) parameters
  refine Value.isIntegral_ofEntries ?_
  simp [entries, responses, listed]

theorem PathItem.isIntegral_toValue {item : PathItem} (integral : item.isIntegral = true) :
    item.toValue.isIntegral = true := by
  refine Value.isIntegral_ofEntries (List.forall_mem_map.mpr fun method listed => ?_)
  refine Value.all_map_of_forall _ fun o present => Operation.isIntegral_toValue ?_
  have each := List.all_eq_true.mp integral method listed
  rw [present] at each
  exact each

/-- A document whose schemas have only integers is written with integers alone. -/
theorem isIntegral_fields {d : Document} (integral : d.isIntegral = true) :
    (Value.record d.fields).isIntegral = true := by
  obtain ⟨inPaths, inDefinitions⟩ := Bool.and_eq_true_iff.mp integral
  have info : (Value.record (Value.ofEntries d.info.entries)).isIntegral = true := by
    refine Value.isIntegral_ofEntries ?_
    simp [Info.entries]
  have paths : (Value.table PathItem.toValue d.paths).isIntegral = true :=
    Value.isIntegral_table fun entry among =>
      PathItem.isIntegral_toValue (List.all_eq_true.mp inPaths entry among)
  have definitions := Value.all_nonempty?_of (fun ds => .record (Schema.memberFields ds))
    (Schema.isIntegral_memberFields d.definitions inDefinitions)
  refine Value.isIntegral_ofEntries ?_
  simp [entries, info, paths, definitions]

end Document

/-! ## Texts -/

/-- The JSON text of a document whose numbers are integers is read as the document, so that
different documents of this kind have different texts. -/
theorem document_read_back (d : Document) (integral : d.isIntegral = true) :
    Document.read? (d.write .json) = some d ∧
    ∀ d' : Document, d'.isIntegral = true → d'.write .json = d.write .json → d' = d := by
  have reads : ∀ d : Document, d.isIntegral = true → Document.read? (d.write .json) = some d := by
    intro d integral
    rw [Document.read?, Document.write, Json.read?_write (Document.isIntegral_fields integral)]
    exact Document.ofFields?_entries d
  refine ⟨reads d integral, fun d' integral' same => ?_⟩
  have read := reads d' integral'
  rw [same, reads d integral] at read
  exact (Option.some.inj read).symm

/-- A document with nested schemas, with all that has to be escaped in a string, and with properties
that are set but empty, or not set. -/
def petDocument (properties : Option (Table Schema)) : Document where
  info := { title := "Pets \"1\\2\"\n\x01\u00e9", version := "" }
  paths := [
    ("/pets/\x7bid\x7d", {
      get := some {
        summary := some ""
        tags := ["pets"]
        parameters := [
          { name := "body", location := "body", required := false
            schema := some (.array (.ofReference "Pet")) }]
        responses := [("200", { description := "ok" })] } })]
  definitions := [
    ("Pet", {
      properties
      items := some { additional := some { minimum := some (.integer (-7)) } }
      enumeration := some [.null, .list [], .record [("", .number (.integer 0))], .text "\t"]
      maxLength := some 120 })]

/-- Properties that are empty are told from those that are not set. -/
theorem document_read_back_pets :
    (petDocument (some [])).isIntegral = true ∧ (petDocument none).isIntegral = true ∧
    Document.read? ((petDocument (some [])).write .json) = some (petDocument (some [])) ∧
    (petDocument none).write .json ≠ (petDocument (some [])).write .json := by
  have integral : (petDocument (some [])).isIntegral = true := by decide
  have integral' : (petDocument none).isIntegral = true := by decide
  obtain ⟨reads, distinct⟩ := document_read_back (petDocument (some [])) integral
  refine ⟨integral, integral', reads, fun same => ?_⟩
  have definitions := congrArg Document.definitions (distinct _ integral' same)
  cases definitions

end ApiDocs
