import ApiDocs.Source.Attribute
import ApiDocs.Validation
import ApiDocs.Proofs.Table
import ApiDocs.Proofs.Text
import Mathlib.Data.List.Basic
import Mathlib.Data.List.TakeWhile

/-!
# Validation entries and constraints

The entries of validation attributes are joined with commas into an expression, which is read again
as constraints. Values are written as they are. So an entry whose value has no comma gives its own
constraint and no other, but what stands after a comma in a value is read as constraints of their
own (`Entry.spilled`), whatever the value was meant for. `validation_reads_entries` says which
operand a keyword gets from entries, and that it is the one of the last entry for it if no value
spills over; `message_changes_bound` is a message that changes a bound.
-/

namespace ApiDocs

/-! ## Constraints of an expression -/

/-- The value of the last entry with a key. -/
def Table.latest? {α : Type} (entries : List (String × α)) (key : String) : Option α :=
  (entries.filter (·.1 = key)).getLast?.map Prod.snd

/-- Putting entry after entry under its key, wherever it is put, leaves the last value of each
key. -/
theorem Table.get?_foldl {α : Type} {put : Table α → String → α → Table α}
    (get?_put : ∀ table key value other,
      (put table key value).get? other = if key = other then some value else table.get? other)
    (entries : List (String × α)) (table : Table α) (key : String) :
    Table.get? (entries.foldl (fun table entry => put table entry.1 entry.2) table) key =
      (Table.latest? entries key).or (table.get? key) := by
  induction entries generalizing table with
  | nil => rfl
  | cons entry entries ih =>
      rw [List.foldl_cons, ih, get?_put, Table.latest?, Table.latest?, List.filter_cons]
      by_cases same : entry.1 = key
      · cases last : (entries.filter (·.1 = key)).getLast? with
        | none => simp [same, List.getLast?_cons, last]
        | some value => simp [same, List.getLast?_cons, last]
      · simp [same]

theorem Table.get?_ofList {α : Type} (entries : List (String × α)) (key : String) :
    (Table.ofList entries).get? key = Table.latest? entries key :=
  (Table.get?_foldl Table.get?_insert entries [] key).trans Option.or_none

theorem Table.isSome_latest?_iff {α : Type} {entries : List (String × α)} {key : String} :
    (Table.latest? entries key).isSome = true ↔ ∃ entry ∈ entries, entry.1 = key := by
  simp [Table.latest?]

namespace Validation

/-- The constraints that an expression spells, in order. -/
def spelled (expression : List Char) : List (String × String) :=
  (((Text.splitAll ',' expression).map Text.trim).filter (!·.isEmpty)).map readPart

/-- The operand of a key is the last one that is spelled. -/
theorem get?_read (expression key : String) :
    (read expression).operands.get? key = Table.latest? (spelled expression.toList) key := by
  have folded := Table.get?_foldl Table.get?_set (spelled expression.toList) [] key
  rw [spelled, List.foldl_map] at folded
  rw [read]
  exact folded.trans (Option.or_none)

/-- Commas separate constraints. -/
theorem spelled_append (first rest : List Char) :
    spelled (first ++ ',' :: rest) = spelled first ++ spelled rest := by
  rw [spelled, Text.splitAll_append, List.map_append, List.filter_append, List.map_append]
  rfl

theorem spelled_intercalate (parts : List String) :
    spelled (",".intercalate parts).toList = parts.flatMap fun part => spelled part.toList := by
  rw [String.toList_intercalate]
  induction parts with
  | nil => rfl
  | cons part parts ih =>
      cases parts with
      | nil => simp
      | cons next parts =>
          rw [List.map_cons, List.map_cons, List.intercalate_cons_cons, List.append_assoc,
            ← List.map_cons, List.flatMap_cons, ← ih]
          exact spelled_append _ _

/-- A text that stands for itself as a keyword. -/
def IsWord (text : List Char) : Prop :=
  text ≠ [] ∧ ∀ c ∈ text, c ≠ ',' ∧ c ≠ '=' ∧ Text.isBlank c = false

-- Over the list: `Char` is finite, and its own instance would try all characters.
instance (text : List Char) : Decidable (IsWord text) :=
  @instDecidableAnd _ _ inferInstance
    (List.decidableBAll (fun c => c ≠ ',' ∧ c ≠ '=' ∧ Text.isBlank c = false) text)

section

variable {word : List Char} (isWord : IsWord word)

include isWord

theorem spelled_word : spelled word = [(.ofList word, "")] := by
  obtain ⟨some, solid⟩ := isWord
  have noComma : ',' ∉ word := fun among => (solid _ among).1 rfl
  have noEquals : '=' ∉ word := fun among => (solid _ among).2.1 rfl
  have trimmed : Text.trim word = word := Text.trim_of_forall fun c among => (solid c among).2.2
  simp [spelled, Text.splitAll_of_not_mem noComma, trimmed, some, readPart,
    Text.splitOnce_eq_none noEquals]

/-- A word and what follows its equals sign are one constraint. -/
theorem spelled_assignment {operand : List Char} (noComma : ',' ∉ operand) :
    spelled (word ++ '=' :: operand) = [(.ofList word, .ofList (Text.trim operand))] := by
  obtain ⟨some, solid⟩ := isWord
  have noEquals : '=' ∉ word := fun among => (solid _ among).2.1 rfl
  have trimmedWord : Text.trim word = word := Text.trim_of_forall fun c among => (solid c among).2.2
  have single : Text.splitAll ',' (word ++ '=' :: operand) = [word ++ '=' :: operand] := by
    apply Text.splitAll_of_not_mem
    simp only [List.mem_append, List.mem_cons, not_or]
    exact ⟨fun among => (solid _ among).1 rfl, by decide, noComma⟩
  -- The word has no blanks, so only the end of the operand is trimmed here.
  have trimmed : Text.trim (word ++ '=' :: operand) = word ++ '=' :: Text.trimEnd operand := by
    have front : Text.trimStart (word ++ '=' :: operand) = word ++ '=' :: operand := by
      obtain ⟨c, rest, rfl⟩ := List.exists_cons_of_ne_nil some
      simp [Text.trimStart, (solid c List.mem_cons_self).2.2]
    rw [Text.trim, front, Text.trimEnd, Text.dropTail_append _ (by decide)]
    rfl
  simp [spelled, single, trimmed, readPart, Text.splitOnce_append _ noEquals, trimmedWord,
    Text.trim_trimEnd]

/-- An assignment ends at the first comma of its operand; the rest is spelled on its own. -/
theorem spelled_assignment_append (operand : List Char) :
    spelled (word ++ '=' :: operand) =
      (.ofList word, .ofList (Text.trim (operand.takeWhile (· ≠ ',')))) ::
        spelled (operand.dropWhile (· ≠ ',')) := by
  have noComma : ',' ∉ operand.takeWhile (· ≠ ',') := by
    intro among
    have kept := List.mem_takeWhile_imp among
    simp at kept
  have whole := List.takeWhile_append_dropWhile (p := (· ≠ ',')) (l := operand)
  have first := spelled_assignment isWord noComma
  cases rest : operand.dropWhile (· ≠ ',') with
  | nil =>
      rw [rest, List.append_nil] at whole
      rw [whole] at first ⊢
      exact first
  | cons c after =>
      have comma : c = ',' := by
        have stops := List.head?_dropWhile_not (· ≠ ',') operand
        rw [rest] at stops
        simpa using stops
      subst comma
      have skips : spelled (',' :: after) = spelled after := spelled_append [] after
      rw [rest] at whole
      have cut := spelled_append (word ++ '=' :: operand.takeWhile (· ≠ ',')) after
      rw [List.append_assoc, List.cons_append, whole, first] at cut
      rw [cut, skips]
      rfl

end

end Validation

/-! ## Constraints of entries -/

namespace Source

namespace Entry

/-- The keyword that the entry stands for. -/
def keyword (entry : Entry) : String := validationKeyword entry.key

/-- The text of the value. -/
def text (entry : Entry) : List Char := (entry.value?.getD "").toList

/-- The constraint that the entry is meant to give. -/
def constraint (entry : Entry) : String × String := (entry.keyword, .ofList (Text.trim entry.text))

/-- The constraints that the entry spells in an expression. -/
def constraints (entry : Entry) : List (String × String) :=
  Validation.spelled entry.validationPart.toList

/-- The constraint that the entry spells up to the first comma of its value. -/
def opening (entry : Entry) : String × String :=
  (entry.keyword, .ofList (Text.trim (entry.text.takeWhile (· ≠ ','))))

/-- The constraints that the value spells from its first comma on. -/
def spilled (entry : Entry) : List (String × String) :=
  Validation.spelled (entry.text.dropWhile (· ≠ ','))

/-- The key has no character that ends a keyword, as a path of identifiers has none. -/
def IsKeyed (entry : Entry) : Prop := Validation.IsWord entry.key.toList

/-- No part of the value is taken for the operand of a keyword or cut off from it. -/
def Contained (entry : Entry) (keyword : String) : Prop :=
  (entry.keyword = keyword → ',' ∉ entry.text) ∧
    ∀ constraint ∈ entry.spilled, constraint.1 ≠ keyword

instance (entry : Entry) : Decidable entry.IsKeyed :=
  inferInstanceAs (Decidable (Validation.IsWord entry.key.toList))

instance (entry : Entry) (keyword : String) : Decidable (entry.Contained keyword) :=
  inferInstanceAs (Decidable ((entry.keyword = keyword → ',' ∉ entry.text) ∧
    ∀ constraint ∈ entry.spilled, constraint.1 ≠ keyword))

theorem isWord_keyword {entry : Entry} (keyed : entry.IsKeyed) :
    Validation.IsWord entry.keyword.toList := by
  rw [keyword, validationKeyword.eq_def]
  split <;> first | exact keyed | decide +kernel

/-- The constraints of an entry are its own and those that spill out of its text. -/
theorem constraints_eq {entry : Entry} (keyed : entry.IsKeyed) :
    entry.constraints = entry.opening :: entry.spilled := by
  have isWord := isWord_keyword keyed
  obtain ⟨key, value?⟩ := entry
  cases value? with
  | none =>
      have alone := Validation.spelled_word isWord
      rw [String.ofList_toList] at alone
      exact alone
  | some value =>
      have spelled := Validation.spelled_assignment_append isWord value.toList
      rw [String.ofList_toList] at spelled
      have part : (validationPart ⟨key, some value⟩).toList =
          (validationKeyword key).toList ++ '=' :: value.toList := by
        simp [validationPart]
      rw [constraints, part]
      exact spelled

/-- Nothing spills out of a text without commas. -/
theorem spilled_eq_nil {entry : Entry} (noComma : ',' ∉ entry.text) : entry.spilled = [] := by
  have nothing : entry.text.dropWhile (· ≠ ',') = [] := by
    rw [List.dropWhile_eq_nil_iff]
    intro c among
    have differs : c ≠ ',' := fun same => noComma (same ▸ among)
    simpa using differs
  rw [spilled, nothing]
  rfl

/-- A value without commas is contained. -/
theorem contained_of_not_mem {entry : Entry} (noComma : ',' ∉ entry.text) (keyword : String) :
    entry.Contained keyword := by
  refine ⟨fun _ => noComma, fun constraint among => ?_⟩
  rw [spilled_eq_nil noComma] at among
  cases among

/-- An entry that contains its value gives its own constraint for a keyword, if any. -/
theorem Contained.filter_eq {entry : Entry} {keyword : String} (keyed : entry.IsKeyed)
    (contained : entry.Contained keyword) :
    entry.constraints.filter (·.1 = keyword) = [entry.constraint].filter (·.1 = keyword) := by
  obtain ⟨whole, apart⟩ := contained
  have others : entry.spilled.filter (·.1 = keyword) = [] := by
    rw [List.filter_eq_nil_iff]
    intro constraint among
    simpa using apart constraint among
  rw [constraints_eq keyed, List.filter_cons, others]
  by_cases same : entry.keyword = keyword
  · have uncut : entry.text.takeWhile (· ≠ ',') = entry.text := by
      rw [List.takeWhile_eq_self_iff]
      intro c among
      have differs : c ≠ ',' := fun comma => whole same (comma ▸ among)
      simpa using differs
    rw [opening, uncut, constraint, List.filter_cons, List.filter_nil]
  · simp [opening, constraint, same]

end Entry

/-- The constraints that attributes give. -/
def validationOf (attributes : List Attribute) : Validation :=
  ((validationExpression? attributes).map Validation.read).getD {}

/-- The operand of a keyword is that of the last constraint for it which the entries spell. -/
theorem get?_validationOf {attributes : List Attribute}
    (listed : ∀ attr ∈ attributes, attr.isNamed "validate" = true → attr.readyExpression? = none)
    (keyword : String) :
    (validationOf attributes).operands.get? keyword =
      Table.latest? ((entriesNamed "validate" attributes).flatMap Entry.constraints) keyword := by
  have parts : (attributes.filter (·.isNamed "validate")).flatMap Attribute.validationParts =
      (entriesNamed "validate" attributes).map Entry.validationPart := by
    rw [entriesNamed, List.map_flatMap]
    refine List.flatMap_congr fun attr among => ?_
    obtain ⟨given, named⟩ := List.mem_filter.mp among
    rw [Attribute.validationParts, listed attr given named]
  rw [validationOf, validationExpression?, parts]
  cases entries : entriesNamed "validate" attributes with
  | nil => rfl
  | cons entry others =>
      have spelled := Validation.get?_read
        (",".intercalate ((entry :: others).map Entry.validationPart)) keyword
      rw [Validation.spelled_intercalate, List.flatMap_map] at spelled
      exact spelled

/-- Every keyword gets the operand of the last constraint for it among those that the entries
spell. An entry spells a constraint for its keyword, with the operand up to the first comma of the
value, and then whatever the rest of the value spells. So if no value spills over on a keyword, the
keyword has a constraint exactly when an entry stands for it, with the last one's value. Values
without commas never spill over. -/
theorem validation_reads_entries (attributes : List Attribute)
    (listed : ∀ attr ∈ attributes, attr.isNamed "validate" = true → attr.readyExpression? = none) :
    (∀ keyword, (validationOf attributes).operands.get? keyword =
      Table.latest? ((entriesNamed "validate" attributes).flatMap Entry.constraints) keyword) ∧
    (∀ entry ∈ entriesNamed "validate" attributes, entry.IsKeyed →
      entry.constraints = entry.opening :: entry.spilled) ∧
    (∀ entry ∈ entriesNamed "validate" attributes, ',' ∉ entry.text →
      ∀ keyword, entry.Contained keyword) ∧
    (∀ keyword,
      (∀ entry ∈ entriesNamed "validate" attributes, entry.IsKeyed ∧ entry.Contained keyword) →
      (validationOf attributes).operands.get? keyword =
        Table.latest? ((entriesNamed "validate" attributes).map Entry.constraint) keyword) ∧
    ((∀ entry ∈ entriesNamed "validate" attributes, entry.IsKeyed ∧ entry.Contained "required") →
      ((validationOf attributes).isRequired = true ↔
        ∃ entry ∈ entriesNamed "validate" attributes, entry.keyword = "required")) := by
  have spelled := get?_validationOf listed
  have contained : ∀ keyword,
      (∀ entry ∈ entriesNamed "validate" attributes, entry.IsKeyed ∧ entry.Contained keyword) →
      (validationOf attributes).operands.get? keyword =
        Table.latest? ((entriesNamed "validate" attributes).map Entry.constraint) keyword := by
    intro keyword all
    rw [spelled, Table.latest?, Table.latest?, List.map_eq_flatMap, List.filter_flatMap,
      List.filter_flatMap]
    congr 2
    apply List.flatMap_congr
    intro entry among
    obtain ⟨keyed, contains⟩ := all entry among
    exact contains.filter_eq keyed
  refine ⟨spelled, fun entry _ keyed => entry.constraints_eq keyed,
    fun entry _ noComma => entry.contained_of_not_mem noComma, contained, fun all => ?_⟩
  rw [Validation.isRequired, Table.has, contained "required" all, Table.isSome_latest?_iff]
  simp [Entry.constraint]

/-- Two attributes; the second gives a bound twice, and a message with a comma. -/
def boundedAttributes : List Attribute :=
  (attributesOfText? ("#[validate(required)] #[validate(length(min = 1, max = 9), ".toList ++
    "length(max = 5, message = \"short, or long\"))]".toList)).getD []

set_option maxRecDepth 100000 in
theorem boundedAttributes_read :
    (∀ attr ∈ boundedAttributes, attr.isNamed "validate" = true → attr.readyExpression? = none) ∧
      entriesNamed "validate" boundedAttributes = [⟨"required", none⟩, ⟨"length.min", some "1"⟩,
        ⟨"length.max", some "9"⟩, ⟨"length.max", some "5"⟩,
        ⟨"length.message", some "short, or long"⟩] := by
  decide +kernel

theorem validation_reads_entries_bounded :
    (∀ attr ∈ boundedAttributes, attr.isNamed "validate" = true → attr.readyExpression? = none) ∧
      ["required", "min", "max", "gt"].map (validationOf boundedAttributes).operands.get? =
        [some "", some "1", some "5", none] ∧
      (validationOf boundedAttributes).isRequired = true := by
  obtain ⟨listed, entries⟩ := boundedAttributes_read
  obtain ⟨_, _, _, contained, required⟩ := validation_reads_entries boundedAttributes listed
  rw [entries] at contained required
  refine ⟨listed, ?_, (required (by decide +kernel)).mpr (by decide +kernel)⟩
  simp only [List.map_cons, List.map_nil]
  rw [contained "required" (by decide +kernel), contained "min" (by decide +kernel),
    contained "max" (by decide +kernel), contained "gt" (by decide +kernel)]
  decide +kernel

/-- A bound, and a message that spells one. -/
def spillingAttributes : List Attribute :=
  (attributesOfText?
    "#[validate(length(min = 1, message = \"too short,min=9\"))]".toList).getD []

set_option maxRecDepth 100000 in
/-- The only entry for `min` has the value 1, but the message changes the bound to 9. -/
theorem message_changes_bound :
    (∀ attr ∈ spillingAttributes, attr.isNamed "validate" = true → attr.readyExpression? = none) ∧
      entriesNamed "validate" spillingAttributes =
        [⟨"length.min", some "1"⟩, ⟨"length.message", some "too short,min=9"⟩] ∧
      Table.latest? ((entriesNamed "validate" spillingAttributes).map Entry.constraint) "min" =
        some "1" ∧
      (validationOf spillingAttributes).operands.get? "min" = some "9" := by
  decide +kernel

end Source

end ApiDocs
