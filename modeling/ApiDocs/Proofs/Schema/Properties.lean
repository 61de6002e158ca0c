import ApiDocs.Proofs.Definer.Run
import ApiDocs.Proofs.Regular
import ApiDocs.Proofs.Source.Validation
import ApiDocs.Schema.OfDefinition
import Mathlib.Data.List.Nodup

/-!
# Properties of an object

Members have different names, but two of them can share a name on the wire. Then the object has one
property for both, which describes the last of them, and lists the name as required once for each
of them that is required (`object_of_members`). So a member that a type draws from what it embeds
can take the place of the type's own.
-/

namespace ApiDocs

namespace Definition

/-- The members with a name on the wire, in order. -/
def sharing (members : Table Member) (name : String) : List Member :=
  members.values.filter (·.info.jsonName = name)

theorem mem_sharing {members : Table Member} {name : String} {member : Member} :
    member ∈ sharing members name ↔ member ∈ members.values ∧ member.info.jsonName = name := by
  rw [sharing, List.mem_filter, decide_eq_true_iff]

theorem sharing_append (members others : Table Member) (name : String) :
    sharing (members ++ others) name = sharing members name ++ sharing others name := by
  rw [sharing, Table.values, List.map_append, List.filter_append]
  rfl

/-- With different names on the wire a member shares its name with no other. -/
theorem sharing_of_nodup {members : Table Member}
    (differ : (members.values.map (·.info.jsonName)).Nodup) {member : Member}
    (among : member ∈ members.values) : sharing members member.info.jsonName = [member] := by
  have listed := mem_sharing.mpr ⟨among, rfl⟩
  have single : (sharing members member.info.jsonName).length ≤ 1 := by
    have once := List.nodup_iff_count_le_one.mp differ member.info.jsonName
    rw [List.count, List.countP_map, List.countP_eq_length_filter] at once
    exact once
  obtain ⟨other, alone⟩ := List.length_eq_one_iff.mp
    (Nat.le_antisymm single (List.length_pos_of_mem listed))
  rw [alone] at listed ⊢
  rw [List.mem_singleton.mp listed]

/-! ## The property under a name -/

/-- The properties of an object are the names of its members on the wire. -/
theorem mem_keys_properties {naming : Naming} {members : Table Member} {name : String} :
    name ∈ (properties naming members).keys ↔
      ∃ member ∈ members.values, member.info.jsonName = name := by
  rw [properties, Table.mem_keys_ofList, List.map_map, List.mem_map]
  rfl

/-- Of members that share a name, the last one gives the property. -/
theorem get?_properties (naming : Naming) (members : Table Member) (name : String) :
    (properties naming members).get? name =
      (sharing members name).getLast?.map (·.schema naming) := by
  rw [properties, Table.get?_ofList, Table.latest?, List.filter_map, List.getLast?_map,
    Option.map_map]
  rfl

/-! ## The required names -/

/-- A name is required as often as members that share it are. -/
theorem count_requiredNames (members : Table Member) (name : String) :
    (requiredNames members).count name = (sharing members name).countP Member.isRequired := by
  rw [requiredNames, List.count, List.countP_map, List.countP_filter, sharing, List.countP_filter]
  refine List.countP_congr fun member _ => ?_
  simp [and_comm]

theorem schema_of_composite {d : Definition} (composite : d.isPrimitive = false) (naming : Naming) :
    (d.schema naming).properties = some (properties naming d.members) ∧
      (d.schema naming).required =
        if (requiredNames d.members).isEmpty then none else some (requiredNames d.members) := by
  have other : TypeText.primitive? d.underlying = none :=
    Option.not_isSome_iff_eq_none.mp fun known => Bool.false_ne_true (composite.symm.trans known)
  rw [schema, other]
  exact ⟨rfl, rfl⟩

end Definition

open Definition in
/-- The object of a composite has a property for each name on the wire, which describes the last
member with that name, whether it was drawn from an embedded type or not. The required names are
listed in the order of the members, each as often as it has a required member. The first member with
a name decides over its property and requirement just if no other does. -/
theorem object_of_members (naming : Naming) (d : Definition) (composite : d.isPrimitive = false) :
    ∃ (properties : Table Schema) (required : List String),
      (d.schema naming).properties = some properties ∧
      (d.schema naming).required = (if required.isEmpty then none else some required) ∧
      -- The properties
      properties.Ascending ∧
      (∀ name, name ∈ properties.keys ↔
        ∃ member ∈ d.members.values, member.info.jsonName = name) ∧
      (∀ name, properties.get? name = (sharing d.members name).getLast?.map (·.schema naming)) ∧
      (∀ own drawn, d.members = own ++ drawn → ∀ name, properties.get? name =
        ((sharing drawn name).getLast?.or (sharing own name).getLast?).map (·.schema naming)) ∧
      -- The required names
      required = (d.members.values.filter Member.isRequired).map (·.info.jsonName) ∧
      (∀ name, required.count name = (sharing d.members name).countP Member.isRequired) ∧
      -- When the first member decides
      (∀ name first others, sharing d.members name = first :: others →
        ((properties.get? name = some (first.schema naming) ∧
            required.count name = if first.isRequired then 1 else 0) ↔
          (∀ last, others.getLast? = some last → last.schema naming = first.schema naming) ∧
            ∀ member ∈ others, member.isRequired = false)) ∧
      ((d.members.values.map (·.info.jsonName)).Nodup → required.Nodup ∧
        ∀ member ∈ d.members.values,
          properties.get? member.info.jsonName = some (member.schema naming) ∧
          (member.info.jsonName ∈ required ↔ member.isRequired = true)) := by
  obtain ⟨described, listed⟩ := schema_of_composite composite naming
  have last := get?_properties naming d.members
  have times := count_requiredNames d.members
  refine ⟨_, _, described, listed, Table.ascending_ofList _, fun name => mem_keys_properties,
    last, ?_, rfl, times, ?_, ?_⟩
  · intro own drawn split name
    rw [last, split, sharing_append, List.getLast?_append]
  · intro name first others shared
    rw [last, times, shared, List.countP_cons, List.getLast?_cons, Option.map_some]
    have alone : (others.countP Member.isRequired + (if first.isRequired = true then 1 else 0) =
        if first.isRequired = true then 1 else 0) ↔ ∀ m ∈ others, m.isRequired = false := by
      rw [Nat.add_eq_right, List.countP_eq_zero]
      simp only [Bool.not_eq_true]
    refine and_congr ?_ alone
    cases others.getLast? with
    | none => simp
    | some member => simp
  · intro differ
    have once : (requiredNames d.members).Nodup :=
      differ.sublist (List.filter_sublist.map _)
    refine ⟨once, fun member among => ?_⟩
    have shared := sharing_of_nodup differ among
    refine ⟨by rw [last, shared]; rfl, ?_⟩
    rw [← List.count_pos_iff, times, shared, List.countP_pos_iff]
    simp

/-- An account whose key has the name on the wire of a member of what it embeds. -/
def accountTypes : List TypeDecl :=
  [{ name := "Account", fields := [
      { name := some "key", typeText := "String", wire := some { name := "id" },
        validate := some "required" },
      { name := some "note", typeText := "String" },
      { typeText := "Base" }] },
   { name := "Base", fields := [
      { name := some "id", typeText := "i64", validate := some "required" }] }]

/-- The account after merging. -/
def mergedAccount : Definition where
  name := "Account"
  unitName := "app"
  importPath := "app"
  members :=
    [("key", .scalar
        { name := "key", wireName := "id", validation := .read "required", origin := "app" }
        "String" none),
     ("note", .scalar { name := "note", origin := "app" } "String" none),
     ("id", .scalar { name := "id", validation := .read "required", origin := "app" } "i64" none)]

theorem object_of_members_account :
    mergedAccount.isPrimitive = false ∧
      ∃ (properties : Table Schema) (required : List String),
        (mergedAccount.schema .full).properties = some properties ∧
        (mergedAccount.schema .full).required =
          (if required.isEmpty then none else some required) ∧
        (properties.get? "id").map (·.kind) = some (some "integer") ∧
        (properties.get? "note").map (·.kind) = some (some "string") ∧
        required.count "id" = 2 := by
  have composite : mergedAccount.isPrimitive = false := by decide +kernel
  obtain ⟨properties, required, described, listed, _, _, last, _, _, times, _⟩ :=
    object_of_members .full mergedAccount composite
  refine ⟨composite, properties, required, described, listed, ?_, ?_, ?_⟩
  · rw [last]
    decide +kernel
  · rw [last]
    decide +kernel
  · rw [times]
    decide +kernel

/-- Of the account's own key and the merged number the number gives the property, and the name that
they share is listed twice. -/
theorem merged_member_replaces_property :
    (∃ members left,
      Definer.defineInOrder (.single accountTypes) [("app", .scalar {} "Account" none)] {} =
        (.ok members, left) ∧ left.store.get? "app.Account" = some mergedAccount) ∧
    (Definition.sharing mergedAccount.members "id").map
        (fun m => (m.info.name, (m.schema .full).kind)) =
      [("key", some "string"), ("id", some "integer")] ∧
    ((mergedAccount.schema .full).properties.bind (Table.get? · "id")).map (·.kind) =
      some (some "integer") ∧
    (mergedAccount.schema .full).required = some ["id", "id"] := by
  have succeeds : (Definer.defineInOrder (.single accountTypes)
      [("app", .scalar {} "Account" none)] {}).1.toOption.map List.length = some 1 := by
    decide +kernel
  have stored : (Definer.defineInOrder (.single accountTypes)
      [("app", .scalar {} "Account" none)] {}).2.store.get? "app.Account" = some mergedAccount := by
    decide +kernel
  obtain ⟨members, left, ran, _⟩ := exists_of_toOption succeeds
  rw [ran] at stored
  refine ⟨⟨members, left, ran, stored⟩, ?_⟩
  decide +kernel

end ApiDocs
