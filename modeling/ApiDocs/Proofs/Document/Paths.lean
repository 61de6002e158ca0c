import ApiDocs.Proofs.Number
import ApiDocs.Proofs.References
import ApiDocs.Proofs.Source.Validation
import ApiDocs.Proofs.Text
import Mathlib.Data.List.Forall2

/-!
# The paths of a document

A document has an entry for each path that an operation with a known method is on. The place of a
method on a path is taken by the last such operation, whatever is added for other paths and methods
in between, and an operation with an unknown method is as good as absent
(`document_of_last_operations`). In the same way the last response with a status code counts.
-/

namespace ApiDocs

/-! ## The last of a kind -/

/-- The entry is of a kind, and none after it is. -/
def LastOf {α : Type} (kind : α → Prop) (list : List α) (last : α) : Prop :=
  ∃ before after, list = before ++ last :: after ∧ kind last ∧ ∀ later ∈ after, ¬ kind later

/-- The last entry of a kind is the last of those that are filtered. -/
theorem getLast?_filter_eq_some_iff {α : Type} {kind : α → Prop} [DecidablePred kind]
    {list : List α} {last : α} :
    (list.filter fun entry => kind entry).getLast? = some last ↔ LastOf kind list last := by
  rw [List.getLast?_filter, List.find?_eq_some_iff_append, decide_eq_true_eq]
  constructor
  · intro found
    obtain ⟨isKind, later, earlier, split, others⟩ := found
    refine ⟨earlier.reverse, later.reverse, ?_, isKind, ?_⟩
    · have whole := congrArg List.reverse split
      simpa using whole
    · simpa using others
  · intro found
    obtain ⟨before, after, rfl, isKind, others⟩ := found
    refine ⟨isKind, after.reverse, before.reverse, ?_, ?_⟩
    · simp
    · simpa using others

theorem map_getLast?_filter_eq_some_iff {α β : Type} {kind : α → Prop} [DecidablePred kind]
    {list : List α} {change : α → β} {result : β} :
    (list.filter fun entry => kind entry).getLast?.map change = some result ↔
      ∃ last, LastOf kind list last ∧ result = change last := by
  rw [Option.map_eq_some_iff]
  refine exists_congr fun last => ?_
  rw [getLast?_filter_eq_some_iff, eq_comm]

/-! ## Methods -/

namespace HttpMethod

/-- The text is the name of the method, with small or capital letters. -/
def Spells (method : HttpMethod) (text : String) : Prop :=
  List.Forall₂ (fun c letter => c = letter ∨ c = letter.toUpper) text.toList method.name.toList

/-- A text is a word in any case if each of its characters is a letter of the word in one of its
cases. -/
theorem map_toLower_eq_iff {text word : List Char} (small : word.all Char.isLower = true) :
    text.map Char.toLower = word ↔
      List.Forall₂ (fun c letter => c = letter ∨ c = letter.toUpper) text word := by
  induction text generalizing word with
  | nil =>
      cases word with
      | nil => simp
      | cons letter word => simp
  | cons c text ih =>
      cases word with
      | nil => simp
      | cons letter word =>
          rw [List.all_cons, Bool.and_eq_true] at small
          rw [List.map_cons, List.cons.injEq, List.forall₂_cons, Text.toLower_eq_iff small.1,
            ih small.2]

theorem all_isLower_name (method : HttpMethod) : method.name.toList.all Char.isLower = true := by
  cases method <;> decide

/-- Methods are told apart by their names. -/
theorem name_injective {method other : HttpMethod} (same : method.name = other.name) :
    method = other := by
  cases method <;> cases other <;> first | rfl | exact absurd same (by decide)

theorem mem_all (method : HttpMethod) : method ∈ all := by
  cases method <;> decide

/-- A method is read from every spelling of its name, and from nothing else. -/
theorem read?_eq_some_iff {text : String} {method : HttpMethod} :
    read? text = some method ↔ method.Spells text := by
  rw [Spells, ← map_toLower_eq_iff method.all_isLower_name, read?]
  constructor
  · intro found
    have spelled := List.find?_some found
    rw [beq_iff_eq] at spelled
    exact spelled.symm
  · intro spelled
    have known :
        (all.find? fun other => other.name.toList == text.toList.map Char.toLower).isSome :=
      List.find?_isSome.mpr ⟨method, method.mem_all, by simp [spelled]⟩
    obtain ⟨found, finds⟩ := Option.isSome_iff_exists.mp known
    have same := List.find?_some finds
    rw [beq_iff_eq, spelled, String.toList_inj] at same
    rw [finds, name_injective same]

instance (method : HttpMethod) (text : String) : Decidable (method.Spells text) :=
  decidable_of_iff _ read?_eq_some_iff

end HttpMethod

namespace Document

/-! ## Operations on a path -/

/-- The operation is on the path and has the method. -/
def IsOn (path : String) (method : HttpMethod) (o : Directive.Operation) : Prop :=
  o.path = path ∧ method.Spells o.method

instance (path : String) (method : HttpMethod) : DecidablePred (IsOn path method) := fun o =>
  inferInstanceAs (Decidable (o.path = path ∧ method.Spells o.method))

section Step

variable (naming : Naming) (d : Document) (o : Directive.Operation)

/-- An operation with an unknown method changes nothing. -/
theorem add_of_unknown (unknown : ∀ method : HttpMethod, ¬ method.Spells o.method) :
    d.add naming o = d := by
  unfold add
  cases read : HttpMethod.read? o.method with
  | none => rfl
  | some method => exact absurd (HttpMethod.read?_eq_some_iff.mp read) (unknown method)

/-- An operation with a known method takes the place of its method at its path. -/
theorem add_of_spells {method : HttpMethod} (spells : method.Spells o.method) :
    d.add naming o =
      { d with
        paths := d.paths.insert o.path
          ((d.itemOf o.path).withOperation method (.ofDirective naming o)) } := by
  unfold add
  rw [HttpMethod.read?_eq_some_iff.mpr spells]

/-- One more operation changes one place at most. -/
theorem operation?_add (path : String) (method : HttpMethod) :
    ((d.add naming o).itemOf path).operation? method =
      if IsOn path method o then some (.ofDirective naming o)
      else (d.itemOf path).operation? method := by
  by_cases known : ∃ own : HttpMethod, own.Spells o.method
  · obtain ⟨own, spells⟩ := known
    have unique : method.Spells o.method ↔ own = method := by
      rw [← HttpMethod.read?_eq_some_iff, HttpMethod.read?_eq_some_iff.mpr spells, Option.some_inj]
    rw [add_of_spells naming d o spells, itemOf, Table.get?_insert]
    simp only [IsOn, unique]
    by_cases here : o.path = path
    · subst here
      rw [if_pos rfl, Option.getD_some, PathItem.operation?_withOperation]
      simp
    · rw [if_neg here, if_neg fun both => here both.1]
      rfl
  · rw [add_of_unknown naming d o (not_exists.mp known), if_neg fun both => known ⟨method, both.2⟩]

/-- A path comes in with a known method only. -/
theorem mem_keys_add (path : String) :
    path ∈ (d.add naming o).paths.keys ↔
      (o.path = path ∧ ∃ method : HttpMethod, method.Spells o.method) ∨ path ∈ d.paths.keys := by
  by_cases known : ∃ own : HttpMethod, own.Spells o.method
  · obtain ⟨own, spells⟩ := id known
    rw [add_of_spells naming d o spells, Table.mem_keys_insert, and_iff_left known, eq_comm]
  · rw [add_of_unknown naming d o (not_exists.mp known)]
    simp [known]

theorem ascending_add (ascending : d.paths.Ascending) : (d.add naming o).paths.Ascending := by
  unfold add
  split
  · exact ascending
  · exact ascending.insert _ _

end Step

section Run

variable (naming : Naming) (operations : List Directive.Operation)

/-- At a path and a method stands the last operation that is for both, or what stood there. -/
theorem operation?_addAll (d : Document) (path : String) (method : HttpMethod) :
    ((d.addAll naming operations).itemOf path).operation? method =
      (((operations.filter fun o => IsOn path method o).getLast?.map (.ofDirective naming)).or
        ((d.itemOf path).operation? method)) := by
  induction operations generalizing d with
  | nil => rfl
  | cons o operations ih =>
      rw [addAll, List.foldl_cons, ← addAll, ih, operation?_add, List.filter_cons]
      by_cases here : IsOn path method o
      · cases last : (operations.filter fun o => IsOn path method o).getLast? with
        | none => simp [here, List.getLast?_cons, last]
        | some later => simp [here, List.getLast?_cons, last]
      · simp [here]

/-- Added operations bring their paths in, as long as their methods are known. -/
theorem mem_keys_addAll (d : Document) (path : String) :
    path ∈ (d.addAll naming operations).paths.keys ↔
      (∃ o ∈ operations, o.path = path ∧ ∃ method : HttpMethod, method.Spells o.method) ∨
        path ∈ d.paths.keys := by
  induction operations generalizing d with
  | nil => simp [addAll]
  | cons o operations ih =>
      rw [addAll, List.foldl_cons, ← addAll, ih, mem_keys_add, ← or_assoc]
      simp only [List.mem_cons, exists_eq_or_imp]
      rw [or_comm (a := o.path = path ∧ _)]

theorem ascending_addAll {d : Document} (ascending : d.paths.Ascending) :
    (d.addAll naming operations).paths.Ascending := by
  induction operations generalizing d with
  | nil => exact ascending
  | cons o operations ih => exact ih (ascending_add naming d o ascending)

end Run

/-! ## Parts of an operation -/

/-- What is documented of a parameter. -/
structure Parameter.Describes (naming : Naming) (p : Directive.Parameter) (described : Parameter) :
    Prop where
  name : described.name = p.name
  location : described.location = p.location.name
  required : described.required = p.required
  description : described.description = if p.description = "" then none else some p.description
  body : p.location = .body →
    described.schema = some (p.member.schema naming) ∧ described.kind = none
  other : p.location ≠ .body → described.schema = none ∧
    ∀ kind, described.kind = some kind ↔ ∃ info text target primitive,
      p.member = .scalar info text target ∧ TypeText.primitive? text = some primitive ∧
        primitive.kind = kind

/-- A parameter has the kind of a primitive, and other types have none. -/
theorem parameterKind?_eq_some_iff {m : Member} {kind : String} :
    parameterKind? m = some kind ↔ ∃ info text target primitive,
      m = .scalar info text target ∧ TypeText.primitive? text = some primitive ∧
        primitive.kind = kind := by
  unfold parameterKind?
  cases m with
  | scalar info text target =>
      simp [Option.map_eq_some_iff]
  | collection info element => simp
  | mapping info key value => simp

/-- What is written of a parameter describes it. -/
theorem describes_ofDirective (naming : Naming) (p : Directive.Parameter) :
    Parameter.Describes naming p (.ofDirective naming p) where
  name := rfl
  location := rfl
  required := rfl
  description := by simp [Parameter.ofDirective, nonEmpty?]
  body := by
    intro body
    simp [Parameter.ofDirective, body]
  other := by
    intro other
    simp [Parameter.ofDirective, other, parameterKind?_eq_some_iff]

/-- Under a status stands the last response that has it. -/
theorem get?_responseTable_eq_some_iff {naming : Naming} {responses : List Directive.Response}
    {code : Nat} {described : Response} :
    (responseTable naming responses).get? (toString code) = some described ↔
      ∃ r, LastOf (fun r => r.code = code) responses r ∧
        described = { description := r.description, schema := some (r.member.schema naming) } := by
  rw [responseTable, Table.get?_ofList, Table.latest?, List.filter_map, List.getLast?_map,
    Option.map_map, ← map_getLast?_filter_eq_some_iff]
  have sameCode : ∀ r : Directive.Response, toString r.code = toString code ↔ r.code = code :=
    fun r => toString_eq_iff
  simp only [Function.comp_def, sameCode]

/-- The statuses of an operation are those of its responses, and no others. -/
theorem mem_keys_responseTable {naming : Naming} {responses : List Directive.Response}
    {key : String} :
    key ∈ (responseTable naming responses).keys ↔ ∃ r ∈ responses, toString r.code = key := by
  rw [responseTable, Table.mem_keys_ofList]
  simp

/-- In a document that is built from operations, in whatever order they are added, a path has an
entry exactly if an operation with a known method is on it. The place of a method holds the last
operation on the path with this method, and is empty if there is none. Operations with unknown
methods change nothing. Each operation is documented with the last response for each status code,
and with all its parameters in order. -/
theorem document_of_last_operations (naming : Naming) (api : Directive.Api)
    (operations : List Directive.Operation) (definitions : Table Schema) :
    let built : Document := { (ofApi api).addAll naming operations with definitions }
    built.paths.Ascending ∧
    (∀ path, path ∈ built.paths.keys ↔
      ∃ o ∈ operations, o.path = path ∧ ∃ method : HttpMethod, method.Spells o.method) ∧
    (∀ path method described, (built.itemOf path).operation? method = some described ↔
      ∃ o, LastOf (IsOn path method) operations o ∧ described = .ofDirective naming o) ∧
    (∀ path method, (built.itemOf path).operation? method = none ↔
      ∀ o ∈ operations, ¬ IsOn path method o) ∧
    (∀ (d : Document) (o : Directive.Operation),
      (∀ method : HttpMethod, ¬ method.Spells o.method) → d.add naming o = d) ∧
    ∀ o : Directive.Operation,
      let described := Operation.ofDirective naming o
      (∀ key, key ∈ described.responses.keys ↔ ∃ r ∈ o.responses, toString r.code = key) ∧
      (∀ code response, described.responses.get? (toString code) = some response ↔
        ∃ r, LastOf (fun r => r.code = code) o.responses r ∧
          response =
            { description := r.description, schema := some (r.member.schema naming) }) ∧
      List.Forall₂ (Parameter.Describes naming) o.parameters described.parameters := by
  intro built
  have place : ∀ path method, (built.itemOf path).operation? method =
      (operations.filter fun o => IsOn path method o).getLast?.map (.ofDirective naming) := by
    intro path method
    have vacant : ((ofApi api).itemOf path).operation? method = none := by
      cases method <;> rfl
    have slot := operation?_addAll naming operations (ofApi api) path method
    rw [vacant, Option.or_none] at slot
    exact slot
  refine ⟨ascending_addAll naming operations List.Pairwise.nil, ?_, ?_, ?_,
    add_of_unknown naming, ?_⟩
  · intro path
    refine (mem_keys_addAll naming operations (ofApi api) path).trans ?_
    exact or_iff_left List.not_mem_nil
  · intro path method described
    rw [place, map_getLast?_filter_eq_some_iff]
  · intro path method
    rw [place, Option.map_eq_none_iff, List.getLast?_eq_none_iff, List.filter_eq_nil_iff]
    simp only [decide_eq_true_eq]
  · intro o described
    refine ⟨fun key => mem_keys_responseTable, fun code response =>
      get?_responseTable_eq_some_iff, ?_⟩
    exact List.forall₂_map_right_iff.mpr
      (List.forall₂_same.mpr fun p _ => describes_ofDirective naming p)

end Document

end ApiDocs
