import ApiDocs.Document
import ApiDocs.Proofs.Json
import ApiDocs.Proofs.Table

/-!
# Reading documents

A document is decoded from the value that was read for its text: each part is looked up under the
name it is written under, and a part that is absent is not set, or empty (`Document.ofFields?`).
The parts that are written have different names, so each is found as it was set
(`Value.get?_ofEntries`), and the fields of a document are decoded as the document
(`Document.ofFields?_entries`).
-/

namespace ApiDocs

/-! ## Kinds of values -/

namespace Value

/-- A text. -/
def text? : Value → Option String
  | .text s => some s
  | _ => none

/-- A truth value. -/
def flag? : Value → Option Bool
  | .flag b => some b
  | _ => none

/-- A number. -/
def number? : Value → Option Numeral
  | .number n => some n
  | _ => none

/-- An integer. -/
def integer? : Value → Option Int
  | .number (.integer n) => some n
  | _ => none

/-- A list of values. -/
def list? : Value → Option (List Value)
  | .list items => some items
  | _ => none

/-- The fields of a record. -/
def fields? : Value → Option (Table Value)
  | .record fields => some fields
  | _ => none

/-- A thing that is described by the fields of a record. -/
def recordOf? {α : Type} (decode : Table Value → Option α) (value : Value) : Option α :=
  value.fields?.bind decode

/-- A list of things of one kind. -/
def listOf? {α : Type} (decode : Value → Option α) (value : Value) : Option (List α) :=
  value.list?.bind fun items => items.mapM decode

/-- A table of things of one kind. -/
def tableOf? {α : Type} (decode : Value → Option α) (value : Value) : Option (Table α) :=
  value.fields?.bind fun fields =>
    fields.mapM fun field => (decode field.2).map fun found => (field.1, found)

end Value

/-- What a value that must be present stands for. -/
def Table.require? {α β : Type} (table : Table α) (key : String) (decode : α → Option β) :
    Option β :=
  (table.get? key).bind decode

/-- The list under a key, which is empty if the key is absent. -/
def Table.decodeList? {α β : Type} (table : Table α) (key : String)
    (decode : α → Option (List β)) : Option (List β) :=
  (table.decode? key decode).map (·.getD [])

/-! ## Schemas -/

namespace Schema

/-- A part of a schema: its value, and what it stands for where it holds schemas itself. -/
structure Part where
  value : Value
  schema? : Option Schema
  members? : Option (Table Schema)

/-- The schema with the given parts. -/
def ofParts? (parts : Table Part) : Option Schema := do
  return {
    reference := ← parts.decode? "$ref" (·.value.text?)
    kind := ← parts.decode? "type" (·.value.text?)
    format := ← parts.decode? "format" (·.value.text?)
    title := ← parts.decode? "title" (·.value.text?)
    description := ← parts.decode? "description" (·.value.text?)
    properties := ← parts.decode? "properties" (·.members?)
    required := ← parts.decode? "required" (·.value.listOf? Value.text?)
    items := ← parts.decode? "items" (·.schema?)
    additional := ← parts.decode? "additionalProperties" (·.schema?)
    enumeration := ← parts.decode? "enum" (·.value.list?)
    minLength := ← parts.decode? "minLength" (·.value.integer?)
    maxLength := ← parts.decode? "maxLength" (·.value.integer?)
    pattern := ← parts.decode? "pattern" (·.value.text?)
    minimum := ← parts.decode? "minimum" (·.value.number?)
    exclusiveMinimum := ← parts.decode? "exclusiveMinimum" (·.value.flag?)
    maximum := ← parts.decode? "maximum" (·.value.number?)
    exclusiveMaximum := ← parts.decode? "exclusiveMaximum" (·.value.flag?)
    minItems := ← parts.decode? "minItems" (·.value.integer?)
    maxItems := ← parts.decode? "maxItems" (·.value.integer?)
    deprecated := ← parts.decode? "x-deprecated" (·.value.flag?) }

mutual

/-- The schema that a value stands for. -/
def ofValue? : Value → Option Schema
  | .record fields => ofParts? (partsOf fields)
  | _ => none

/-- The parts of a schema. -/
def partsOf : List (String × Value) → Table Part
  | [] => []
  | (key, value) :: fields => (key, ⟨value, ofValue? value, membersOf? value⟩) :: partsOf fields

/-- The named schemas that a value stands for. -/
def membersOf? : Value → Option (Table Schema)
  | .record fields => membersOfFields? fields
  | _ => none

/-- The named schemas of fields. -/
def membersOfFields? : List (String × Value) → Option (Table Schema)
  | [] => some []
  | (name, value) :: fields =>
    (ofValue? value).bind fun schema =>
      (membersOfFields? fields).map fun members => (name, schema) :: members

end

end Schema

/-! ## Documents -/

namespace Document

/-- The information in some fields. -/
def Info.ofFields? (fields : Table Value) : Option Info := do
  return {
    title := ← fields.require? "title" Value.text?
    description := ← fields.decode? "description" Value.text?
    version := ← fields.require? "version" Value.text? }

/-- The parameter in some fields. -/
def Parameter.ofFields? (fields : Table Value) : Option Parameter := do
  return {
    name := ← fields.require? "name" Value.text?
    location := ← fields.require? "in" Value.text?
    required := ← fields.require? "required" Value.flag?
    description := ← fields.decode? "description" Value.text?
    schema := ← fields.decode? "schema" Schema.ofValue?
    kind := ← fields.decode? "type" Value.text? }

/-- The response in some fields. -/
def Response.ofFields? (fields : Table Value) : Option Response := do
  return {
    description := ← fields.require? "description" Value.text?
    schema := ← fields.decode? "schema" Schema.ofValue? }

/-- The operation in some fields. -/
def Operation.ofFields? (fields : Table Value) : Option Operation := do
  return {
    summary := ← fields.decode? "summary" Value.text?
    description := ← fields.decode? "description" Value.text?
    consumes := ← fields.decodeList? "consumes" (Value.listOf? Value.text?)
    produces := ← fields.decodeList? "produces" (Value.listOf? Value.text?)
    tags := ← fields.decodeList? "tags" (Value.listOf? Value.text?)
    parameters :=
      ← fields.decodeList? "parameters" (Value.listOf? (Value.recordOf? Parameter.ofFields?))
    responses :=
      ← fields.require? "responses" (Value.tableOf? (Value.recordOf? Response.ofFields?)) }

/-- The operations of a path in some fields. -/
def PathItem.ofFields? (fields : Table Value) : Option PathItem := do
  return {
    get := ← fields.decode? "get" (Value.recordOf? Operation.ofFields?)
    put := ← fields.decode? "put" (Value.recordOf? Operation.ofFields?)
    post := ← fields.decode? "post" (Value.recordOf? Operation.ofFields?)
    delete := ← fields.decode? "delete" (Value.recordOf? Operation.ofFields?)
    options := ← fields.decode? "options" (Value.recordOf? Operation.ofFields?)
    head := ← fields.decode? "head" (Value.recordOf? Operation.ofFields?)
    patch := ← fields.decode? "patch" (Value.recordOf? Operation.ofFields?) }

/-- The document in some fields. -/
def ofFields? (fields : Table Value) : Option Document := do
  return {
    swagger := ← fields.require? "swagger" Value.text?
    info := ← fields.require? "info" (Value.recordOf? Info.ofFields?)
    basePath := ← fields.decode? "basePath" Value.text?
    paths := ← fields.require? "paths" (Value.tableOf? (Value.recordOf? PathItem.ofFields?))
    definitions := ← fields.decodeList? "definitions" Schema.membersOf? }

/-- The document in a JSON text. -/
def read? (text : String) : Option Document :=
  (Json.read? text).bind (Value.recordOf? ofFields?)

end Document

/-! ## Entries -/

namespace Value

section

variable {entries : Table (Option Value)} (once : entries.keys.Nodup)

include once

/-- Each entry is found as it was set. -/
theorem get?_ofEntries (key : String) :
    (ofEntries entries).get? key = (entries.get? key).join := by
  induction entries with
  | nil => rfl
  | cons entry entries ih =>
      obtain ⟨k, value⟩ := entry
      obtain ⟨fresh, once⟩ := List.nodup_cons.mp once
      have later := ih once
      change Table.get? (field? k value ++ ofEntries entries) key = _
      rw [Table.get?]
      by_cases same : k = key
      · subst same
        rw [Table.get?_eq_none_iff.mpr fresh] at later
        rw [if_pos rfl]
        cases value with
        | none => exact later
        | some value => exact if_pos rfl
      · rw [if_neg same, ← later]
        cases value with
        | none => rfl
        | some value => exact if_neg same

variable {α : Type} {key : String} {decode : Value → Option α}

/-- An optional part that is written under its key is decoded from there. -/
theorem decode?_ofEntries {x : Option α} {write : α → Value}
    (entry : entries.get? key = some (x.map write)) (reads : ∀ y ∈ x, decode (write y) = some y) :
    (ofEntries entries).decode? key decode = some x := by
  rw [Table.decode?, get?_ofEntries once, entry, Option.join_some]
  cases x with
  | none => rfl
  | some y => exact congrArg (Option.map some) (reads y rfl)

/-- A part that is always written is found under its key. -/
theorem require?_ofEntries {x : α} {value : Value} (entry : entries.get? key = some (some value))
    (reads : decode value = some x) : (ofEntries entries).require? key decode = some x := by
  rw [Table.require?, get?_ofEntries once, entry]
  exact reads

/-- A list that is left out when it is empty is decoded as the empty list. -/
theorem decodeList?_ofEntries {xs : List α} {write : List α → Value}
    {decode : Value → Option (List α)} (entry : entries.get? key = some (nonempty? write xs))
    (reads : decode (write xs) = some xs) :
    (ofEntries entries).decodeList? key decode = some xs := by
  rw [Table.decodeList?, Table.decode?, get?_ofEntries once, entry, Option.join_some, nonempty?]
  cases xs with
  | nil => rfl
  | cons x xs =>
      change Option.map _ (Option.map some (decode (write (x :: xs)))) = _
      rw [reads]
      rfl

end

section

variable {α : Type} {decode : Value → Option α} {write : α → Value}

/-- A list is decoded if its items are. -/
theorem listOf?_map {xs : List α} (reads : ∀ x ∈ xs, decode (write x) = some x) :
    listOf? decode (.list (xs.map write)) = some xs := by
  change (xs.map write).mapM decode = some xs
  induction xs with
  | nil => rfl
  | cons x xs ih =>
      obtain ⟨first, later⟩ := List.forall_mem_cons.mp reads
      rw [List.map_cons, List.mapM_cons, first, ih later]
      rfl

theorem listOf?_texts (texts : List String) : listOf? text? (.texts texts) = some texts :=
  listOf?_map fun _ _ => rfl

/-- A table is decoded if its values are. -/
theorem tableOf?_table {xs : Table α}
    (reads : ∀ entry ∈ xs, decode (write entry.2) = some entry.2) :
    tableOf? decode (table write xs) = some xs := by
  change (xs.map fun entry => (entry.1, write entry.2)).mapM
    (fun field => (decode field.2).map fun found => (field.1, found)) = some xs
  induction xs with
  | nil => rfl
  | cons x xs ih =>
      obtain ⟨first, later⟩ := List.forall_mem_cons.mp reads
      rw [List.map_cons, List.mapM_cons, first, ih later]
      rfl

end

end Value

/-! ## Schemas are read back -/

namespace Schema

/-- No key of a schema is written twice. -/
theorem nodup_entries (s : Schema) : s.entries.keys.Nodup := by
  have names : s.entries.keys = ["$ref", "type", "format", "title", "description", "properties",
      "required", "items", "additionalProperties", "enum", "minLength", "maxLength", "pattern",
      "minimum", "exclusiveMinimum", "maximum", "exclusiveMaximum", "minItems", "maxItems",
      "x-deprecated"] := by
    cases s
    rfl
  rw [names]
  decide

theorem value?_eq (schema? : Option Schema) : value? schema? = schema?.map toValue := by
  cases schema? <;> rfl

theorem membersValue?_eq (members? : Option (Table Schema)) :
    membersValue? members? = members?.map fun members => .record (memberFields members) := by
  cases members? <;> rfl

/-- A part is decoded from what was read of the value under its key. -/
theorem decode?_partsOf {α : Type} (fields : Table Value) (key : String)
    (decode : Part → Option α) :
    (partsOf fields).decode? key decode =
      fields.decode? key fun value => decode ⟨value, ofValue? value, membersOf? value⟩ := by
  have found : (partsOf fields).get? key = (fields.get? key).map fun value =>
      ⟨value, ofValue? value, membersOf? value⟩ := by
    induction fields with
    | nil => rfl
    | cons field fields ih =>
        obtain ⟨k, value⟩ := field
        rw [partsOf, Table.get?, Table.get?, ih]
        split <;> rfl
  rw [Table.decode?, Table.decode?, found]
  cases fields.get? key <;> rfl

section

variable (s : Schema)

/-- A part of a schema is read back if its value is. -/
theorem decode?_part {α : Type} {key : String} {decode : Part → Option α} (x : Option α)
    {write : α → Value} (entry : s.entries.get? key = some (x.map write))
    (reads : ∀ y ∈ x, decode ⟨write y, ofValue? (write y), membersOf? (write y)⟩ = some y) :
    (partsOf s.fields).decode? key decode = some x := by
  rw [decode?_partsOf]
  exact Value.decode?_ofEntries s.nodup_entries entry reads

theorem decode?_text {key : String} (x : Option String)
    (entry : s.entries.get? key = some (x.map .text)) :
    (partsOf s.fields).decode? key (·.value.text?) = some x :=
  s.decode?_part x entry fun _ _ => rfl

theorem decode?_flag {key : String} (x : Option Bool)
    (entry : s.entries.get? key = some (x.map .flag)) :
    (partsOf s.fields).decode? key (·.value.flag?) = some x :=
  s.decode?_part x entry fun _ _ => rfl

theorem decode?_integer {key : String} (x : Option Int)
    (entry : s.entries.get? key = some (x.map .integer)) :
    (partsOf s.fields).decode? key (·.value.integer?) = some x :=
  s.decode?_part x entry fun _ _ => rfl

theorem decode?_number {key : String} (x : Option Numeral)
    (entry : s.entries.get? key = some (x.map .number)) :
    (partsOf s.fields).decode? key (·.value.number?) = some x :=
  s.decode?_part x entry fun _ _ => rfl

theorem decode?_schema {key : String} (x : Option Schema)
    (entry : s.entries.get? key = some (value? x))
    (reads : ∀ schema ∈ x, ofValue? schema.toValue = some schema) :
    (partsOf s.fields).decode? key (·.schema?) = some x :=
  s.decode?_part x (entry.trans (congrArg some (value?_eq x))) reads

/-- The members of a schema are decoded if the fields that they are written in are. -/
theorem decode?_members {key : String} (x : Option (Table Schema))
    (entry : s.entries.get? key = some (membersValue? x))
    (reads : ∀ members ∈ x, membersOfFields? (memberFields members) = some members) :
    (partsOf s.fields).decode? key (·.members?) = some x :=
  s.decode?_part x (entry.trans (congrArg some (membersValue?_eq x))) reads

end

mutual

/-- A schema is read back. -/
theorem ofValue?_toValue : (s : Schema) → ofValue? s.toValue = some s
  | ⟨reference, kind, format, title, description, properties, required, items, additional,
      enumeration, minLength, maxLength, pattern, minimum, exclusiveMinimum, maximum,
      exclusiveMaximum, minItems, maxItems, deprecated⟩ => by
    have members := membersOfFields?_of_mem properties
    have inItems := ofValue?_toValue_of_mem items
    have others := ofValue?_toValue_of_mem additional
    rw [toValue, ofValue?, ofParts?, decode?_text _ reference rfl, decode?_text _ kind rfl,
      decode?_text _ format rfl, decode?_text _ title rfl, decode?_text _ description rfl,
      decode?_members _ properties rfl members,
      decode?_part _ required rfl fun texts _ => Value.listOf?_texts texts,
      decode?_schema _ items rfl inItems, decode?_schema _ additional rfl others,
      decode?_part _ enumeration rfl fun _ _ => rfl, decode?_integer _ minLength rfl,
      decode?_integer _ maxLength rfl, decode?_text _ pattern rfl, decode?_number _ minimum rfl,
      decode?_flag _ exclusiveMinimum rfl, decode?_number _ maximum rfl,
      decode?_flag _ exclusiveMaximum rfl, decode?_integer _ minItems rfl,
      decode?_integer _ maxItems rfl, decode?_flag _ deprecated rfl]
    rfl

/-- A schema inside another one is read back. -/
theorem ofValue?_toValue_of_mem : (x : Option Schema) →
    ∀ schema ∈ x, ofValue? schema.toValue = some schema
  | none => nofun
  | some s => by
    rintro schema same
    cases same
    exact ofValue?_toValue s

/-- Properties are read back. -/
theorem membersOfFields?_of_mem : (x : Option (List (String × Schema))) →
    ∀ members ∈ x, membersOfFields? (memberFields members) = some members
  | none => nofun
  | some table => by
    rintro members same
    cases same
    exact membersOfFields?_memberFields table

/-- Named schemas are read back. -/
theorem membersOfFields?_memberFields : (table : List (String × Schema)) →
    membersOfFields? (memberFields table) = some table
  | [] => rfl
  | (name, schema) :: table => by
    have first : ofValue? (.record (Value.ofEntries schema.entries)) = some schema :=
      ofValue?_toValue schema
    rw [memberFields, membersOfFields?, first, Option.bind_some,
      membersOfFields?_memberFields table]
    rfl

end

end Schema

/-! ## Documents are read back -/

namespace Document

section

variable {entries : Table (Option Value)} (once : entries.keys.Nodup) {key : String}

include once

theorem require?_text (x : String) (entry : entries.get? key = some (some (.text x))) :
    (Value.ofEntries entries).require? key Value.text? = some x :=
  Value.require?_ofEntries once entry rfl

theorem decode?_text (x : Option String) (entry : entries.get? key = some (x.map .text)) :
    (Value.ofEntries entries).decode? key Value.text? = some x :=
  Value.decode?_ofEntries once entry fun _ _ => rfl

theorem decode?_schema (x : Option Schema)
    (entry : entries.get? key = some (x.map Schema.toValue)) :
    (Value.ofEntries entries).decode? key Schema.ofValue? = some x :=
  Value.decode?_ofEntries once entry fun schema _ => Schema.ofValue?_toValue schema

theorem decodeList?_texts (xs : List String)
    (entry : entries.get? key = some (Value.nonempty? Value.texts xs)) :
    (Value.ofEntries entries).decodeList? key (Value.listOf? Value.text?) = some xs :=
  Value.decodeList?_ofEntries once entry (Value.listOf?_texts xs)

end

/-- The description of the interface is decoded from what is written of it. -/
theorem Info.ofFields?_entries (info : Info) :
    ofFields? (Value.ofEntries info.entries) = some info := by
  have once : info.entries.keys.Nodup := by
    change ["title", "description", "version"].Nodup
    decide
  rw [ofFields?, require?_text once info.title rfl, decode?_text once info.description rfl,
    require?_text once info.version rfl]
  rfl

/-- A parameter is decoded from what is written of it. -/
theorem Parameter.ofFields?_entries (p : Parameter) :
    ofFields? (Value.ofEntries p.entries) = some p := by
  have once : p.entries.keys.Nodup := by
    change ["name", "in", "required", "description", "schema", "type"].Nodup
    decide
  have required : (Value.ofEntries p.entries).require? "required" Value.flag? = some p.required :=
    Value.require?_ofEntries once rfl rfl
  rw [ofFields?, require?_text once p.name rfl, require?_text once p.location rfl, required,
    decode?_text once p.description rfl, decode?_schema once p.schema rfl,
    decode?_text once p.kind rfl]
  rfl

/-- A response is decoded from what is written of it. -/
theorem Response.ofFields?_entries (r : Response) :
    ofFields? (Value.ofEntries r.entries) = some r := by
  have once : r.entries.keys.Nodup := by
    change ["description", "schema"].Nodup
    decide
  rw [ofFields?, require?_text once r.description rfl, decode?_schema once r.schema rfl]
  rfl

/-- An operation is decoded from what is written of it, parameters and responses included. -/
theorem Operation.ofFields?_entries (o : Operation) :
    ofFields? (Value.ofEntries o.entries) = some o := by
  have once : o.entries.keys.Nodup := by
    change ["summary", "description", "consumes", "produces", "tags", "parameters",
      "responses"].Nodup
    decide
  have parameters : (Value.ofEntries o.entries).decodeList? "parameters"
      (Value.listOf? (Value.recordOf? Parameter.ofFields?)) = some o.parameters :=
    Value.decodeList?_ofEntries once rfl
      (Value.listOf?_map fun p _ => Parameter.ofFields?_entries p)
  have responses : (Value.ofEntries o.entries).require? "responses"
      (Value.tableOf? (Value.recordOf? Response.ofFields?)) = some o.responses :=
    Value.require?_ofEntries once rfl
      (Value.tableOf?_table fun entry _ => Response.ofFields?_entries entry.2)
  rw [ofFields?, decode?_text once o.summary rfl, decode?_text once o.description rfl,
    decodeList?_texts once o.consumes rfl, decodeList?_texts once o.produces rfl,
    decodeList?_texts once o.tags rfl, parameters, responses]
  rfl

/-- The operations of a path are decoded from what is written of them. -/
theorem PathItem.ofFields?_entries (item : PathItem) :
    ofFields? (Value.ofEntries item.entries) = some item := by
  have once : item.entries.keys.Nodup := by
    change (HttpMethod.all.map HttpMethod.name).Nodup
    decide
  have operation : ∀ (key : String) (x : Option Operation),
      item.entries.get? key = some (x.map Operation.toValue) →
      (Value.ofEntries item.entries).decode? key (Value.recordOf? Operation.ofFields?) = some x :=
    fun key x entry =>
      Value.decode?_ofEntries once entry fun o _ => Operation.ofFields?_entries o
  rw [ofFields?, operation "get" item.get rfl, operation "put" item.put rfl,
    operation "post" item.post rfl, operation "delete" item.delete rfl,
    operation "options" item.options rfl, operation "head" item.head rfl,
    operation "patch" item.patch rfl]
  rfl

/-- A document is decoded from its fields. -/
theorem ofFields?_entries (d : Document) : ofFields? d.fields = some d := by
  have once : d.entries.keys.Nodup := by
    change ["swagger", "info", "basePath", "paths", "definitions"].Nodup
    decide
  have info : (Value.ofEntries d.entries).require? "info" (Value.recordOf? Info.ofFields?) =
      some d.info :=
    Value.require?_ofEntries once rfl (Info.ofFields?_entries d.info)
  have paths : (Value.ofEntries d.entries).require? "paths"
      (Value.tableOf? (Value.recordOf? PathItem.ofFields?)) = some d.paths :=
    Value.require?_ofEntries once rfl
      (Value.tableOf?_table fun entry _ => PathItem.ofFields?_entries entry.2)
  have definitions : (Value.ofEntries d.entries).decodeList? "definitions" Schema.membersOf? =
      some d.definitions :=
    Value.decodeList?_ofEntries once rfl (Schema.membersOfFields?_memberFields d.definitions)
  rw [fields, ofFields?, require?_text once d.swagger rfl, info, decode?_text once d.basePath rfl,
    paths, definitions]
  rfl

end Document

end ApiDocs
