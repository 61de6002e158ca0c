import ApiDocs.Declaration.OfSource
import ApiDocs.Definition.OfDeclaration
import ApiDocs.Proofs.Resolution
import ApiDocs.Proofs.Source.WireName
import ApiDocs.Proofs.Text.Occurrence
import Mathlib.Data.List.Basic

/-!
# Fields that are left out

A field is excluded if it is marked to be ignored or skipped on the wire. To ignore a field is as
good as not to declare it, whatever else is said of it and whether it has a name or is embedded. To
skip it is as good only if it has a name: a type that is embedded and skipped is embedded all the
same (`excluded_fields_silent_iff`).
-/

namespace ApiDocs

open Text Text.Pattern

/-! ## The ignore mark -/

/-- The text has the word `ignore` in it, in letters of either case, after the sign and not as the
beginning of a longer word. -/
def IgnoreMarked (text : String) : Prop :=
  ∃ left word right, text.toList = left ++ '@' :: (word ++ right) ∧
    List.Forall₂ (fun letter c => folds letter c = true) "ignore".toList word ∧ Stops isWord right

/-- The word ends in a word character, so the boundary behind it says that it does not go on. -/
theorem atBoundary_of_ignore {word : List Char}
    (spelled : List.Forall₂ (fun letter c => folds letter c = true) "ignore".toList word)
    (before : Option Char) (right : List Char) :
    atBoundary (word.getLast?.or before) right = true ↔ Stops isWord right := by
  have letters : "ignore".toList.reverse = 'e' :: "rongi".toList := by decide
  have backwards := List.forall₂_reverse_iff.mpr spelled
  rw [letters] at backwards
  obtain ⟨last, front, fold, _, reversed⟩ := List.forall₂_cons_left_iff.mp backwards
  have lower : last.toLower = 'e' := by simpa [folds] using fold
  have inWord : isWord last = true := by
    rcases (toLower_eq_iff (by decide)).mp lower with rfl | rfl <;> decide
  rw [List.getLast?_eq_head?_reverse, reversed, atBoundary]
  cases right with
  | nil => simp [inWord, Stops]
  | cons c right => simp [inWord, Stops]

/-- The marker stands in a text just if the text is marked for being ignored. -/
theorem standsIn_ignoreMarker_iff {text : String} :
    ignoreMarker.StandsIn text.toList ↔ IgnoreMarked text := by
  constructor
  · rintro ⟨left, _, split, _, _, rfl, rfl, word, _, rfl, spelled, _, right, rfl, ⟨rfl, ends⟩, _⟩
    exact ⟨left, word, right, split, spelled, (atBoundary_of_ignore spelled _ _).mp ends⟩
  · rintro ⟨left, word, right, split, spelled, ends⟩
    exact ⟨left, _, split, _, _, rfl, rfl, word, right, rfl, spelled, [], right, rfl,
      ⟨rfl, (atBoundary_of_ignore spelled _ _).mpr ends⟩, trivial⟩

/-! ## Excluded fields -/

namespace FieldDecl

variable {field : FieldDecl}

/-- The field is marked to be ignored. -/
def IsMarked (field : FieldDecl) : Prop := IgnoreMarked field.doc ∨ IgnoreMarked field.comment

/-- The field is skipped on the wire, where its name is a dash. -/
def IsSkipped (field : FieldDecl) : Prop := field.wire.map (·.name) = some "-"

/-- The field is to be left out. -/
def IsExcluded (field : FieldDecl) : Prop := field.IsMarked ∨ field.IsSkipped

theorem isIgnored_iff : field.isIgnored = true ↔ field.IsMarked := by
  rw [isIgnored, isMarked, Bool.or_eq_true, occurs_iff_standsIn, occurs_iff_standsIn,
    standsIn_ignoreMarker_iff, standsIn_ignoreMarker_iff]
  rfl

instance : DecidablePred IsMarked := fun _ => decidable_of_iff _ isIgnored_iff

instance : DecidablePred IsSkipped := fun field =>
  inferInstanceAs (Decidable (field.wire.map (·.name) = some "-"))

instance : DecidablePred IsExcluded := fun field =>
  inferInstanceAs (Decidable (field.IsMarked ∨ field.IsSkipped))

/-- A field is skipped if its name on the wire is a hyphen. -/
theorem isSkipped_iff : field.IsSkipped ↔ (field.wire.getD {}).name = "-" := by
  rw [IsSkipped]
  cases field.wire with
  | none => exact iff_of_false nofun (by decide)
  | some tag => exact Option.some_inj

/-- A field of a source file is skipped if its attributes say so, or if they give it the name that
skipped fields have. -/
theorem isSkipped_ofSource_iff (context : SourceContext) (parameters : List String)
    (field : Source.Field) :
    (ofSource context parameters field).IsSkipped ↔
      leavesOut (Source.entriesNamed "serde" field.attributes) = true ∨
        newName? (Source.entriesNamed "serde" field.attributes) = some "-" := by
  rw [isSkipped_iff, ofSource]
  generalize Source.entriesNamed "serde" field.attributes = entries
  dsimp only
  cases leavesOut entries with
  | true => simp
  | false =>
      cases newName? entries with
      | none => cases entries.any (·.key == "skip_serializing_if") <;> simp
      | some name => simp

/-- The same by the entries as they are written: one of them leaves the field out, or the first that
is about the name gives it that of skipped fields. -/
theorem isSkipped_ofSource_iff_entries (context : SourceContext) (parameters : List String)
    (field : Source.Field) :
    (ofSource context parameters field).IsSkipped ↔
      Omitted (Source.entriesNamed "serde" field.attributes) ∨
        Renamed (Source.entriesNamed "serde" field.attributes) "-" := by
  rw [isSkipped_ofSource_iff, leavesOut_iff, newName?_eq_some_iff]

/-- The member of a field under the name of the field. -/
def namedMember? (path : ImportPath) (field : FieldDecl) : Option (String × Member) :=
  field.name.bind fun name => (field.member? path).map (name, ·)

/-- An excluded field gives no member. -/
theorem member?_of_excluded (excluded : field.IsExcluded) (path : ImportPath) :
    field.member? path = none := by
  rw [member?]
  cases field.name with
  | none => rfl
  | some name =>
      refine if_pos ?_
      rcases excluded with marked | skipped
      · simp [isIgnored_iff.mpr marked]
      · simp [isSkipped_iff.mp skipped]

theorem namedMember?_of_excluded (excluded : field.IsExcluded) (path : ImportPath) :
    field.namedMember? path = none := by
  rw [namedMember?, member?_of_excluded excluded]
  cases field.name <;> rfl

end FieldDecl

/-! ## What fields contribute -/

open FieldDecl

/-- The texts of the types that fields embed. -/
def embeddedTexts (fields : List FieldDecl) : List String :=
  (fields.filter fun field => field.name = none ∧ ¬ field.IsMarked).map (·.typeText)

/-- The members of fields, of which a later one takes the place of an earlier one of its name. -/
def memberTable (path : ImportPath) (fields : List FieldDecl) (members : Table Member) :
    Table Member :=
  (fields.filterMap (namedMember? path)).foldl (fun members entry => members.set entry.1 entry.2)
    members

theorem memberTable_cons (path : ImportPath) (field : FieldDecl) (fields : List FieldDecl)
    (members : Table Member) :
    memberTable path (field :: fields) members =
      memberTable path fields (memberTable path [field] members) := by
  simp only [memberTable, List.filterMap_cons]
  cases field.namedMember? path <;> rfl

theorem embeddedTexts_cons (field : FieldDecl) (fields : List FieldDecl) :
    embeddedTexts (field :: fields) = embeddedTexts [field] ++ embeddedTexts fields := by
  rw [embeddedTexts, embeddedTexts, embeddedTexts, ← List.map_append, ← List.filter_append]
  rfl

theorem Definition.addField_eq (path : ImportPath) (d : Definition) (field : FieldDecl) :
    d.addField path field =
      { d with
        members := memberTable path [field] d.members
        embedded := d.embedded ++ embeddedTexts [field] } := by
  rw [addField]
  by_cases marked : field.IsMarked
  · rw [if_pos (isIgnored_iff.mpr marked)]
    simp [memberTable, embeddedTexts, marked, namedMember?_of_excluded (Or.inl marked)]
  · rw [if_neg (mt isIgnored_iff.mp marked)]
    cases named : field.name with
    | none => simp [memberTable, embeddedTexts, namedMember?, named, marked]
    | some name =>
        cases given : field.member? path with
        | none => simp [memberTable, embeddedTexts, namedMember?, named, given]
        | some member => simp [memberTable, embeddedTexts, namedMember?, named, given]

/-- The definition of a type has its members from the named fields and its embedded texts from the
others, in their order. -/
theorem TypeDecl.definition_eq (decl : TypeDecl) (unitName : String) (path : ImportPath) :
    decl.definition unitName path =
      { name := decl.name, unitName, importPath := path, doc := decl.doc,
        underlying := decl.underlying, members := memberTable path decl.fields [],
        embedded := embeddedTexts decl.fields } := by
  have added : ∀ (fields : List FieldDecl) (d : Definition),
      fields.foldl (Definition.addField path) d =
        { d with
          members := memberTable path fields d.members
          embedded := d.embedded ++ embeddedTexts fields } := by
    intro fields
    induction fields with
    | nil =>
        intro d
        simp [memberTable, embeddedTexts]
    | cons field fields ih =>
        intro d
        rw [List.foldl_cons, ih, Definition.addField_eq, memberTable_cons path field fields,
          embeddedTexts_cons field fields, List.append_assoc]
  rw [definition, added]
  rfl

/-- A member of the table was there before, or one of the fields gives it. -/
theorem mem_of_mem_memberTable {path : ImportPath} {fields : List FieldDecl}
    {members : Table Member} {entry : String × Member}
    (among : entry ∈ memberTable path fields members) :
    entry ∈ members ∨ ∃ field ∈ fields, field.namedMember? path = some entry := by
  induction fields generalizing members with
  | nil => exact Or.inl among
  | cons field fields ih =>
      rw [memberTable_cons] at among
      rcases ih among with earlier | ⟨other, later, given⟩
      · cases given : field.namedMember? path with
        | none =>
            simp only [memberTable, List.filterMap_cons, given] at earlier
            exact Or.inl earlier
        | some own =>
            simp only [memberTable, List.filterMap_cons, given] at earlier
            rcases Table.mem_set earlier with rfl | old
            · exact Or.inr ⟨field, List.mem_cons_self, given⟩
            · exact Or.inl old
      · exact Or.inr ⟨other, List.mem_cons_of_mem _ later, given⟩

/-! ## Deleting fields -/

/-- The declaration without the fields of a kind. -/
def TypeDecl.without (decl : TypeDecl) (kind : FieldDecl → Prop) [DecidablePred kind] : TypeDecl :=
  { decl with fields := decl.fields.filter fun field => ¬ kind field }

section

variable {kind : FieldDecl → Prop} [DecidablePred kind]

/-- Members do not change if fields that are excluded anyway are removed. -/
theorem memberTable_without (silent : ∀ field, kind field → field.IsExcluded) (path : ImportPath)
    (fields : List FieldDecl) (members : Table Member) :
    memberTable path (fields.filter fun field => ¬ kind field) members =
      memberTable path fields members := by
  rw [memberTable, memberTable, List.filterMap_filter]
  congr 1
  refine List.filterMap_congr fun field _ => ?_
  by_cases deleted : kind field
  · simp [deleted, namedMember?_of_excluded (silent field deleted)]
  · simp [deleted]

/-- Deleting embedded fields shows, unless they are marked. -/
theorem embeddedTexts_without_eq_iff (fields : List FieldDecl) :
    embeddedTexts (fields.filter fun field => ¬ kind field) = embeddedTexts fields ↔
      ∀ field ∈ fields, field.name = none → kind field → field.IsMarked := by
  have filtered : embeddedTexts (fields.filter fun field => ¬ kind field) =
      (fields.filter fun field => (field.name = none ∧ ¬ field.IsMarked) ∧ ¬ kind field).map
        (·.typeText) := by
    rw [embeddedTexts, List.filter_filter]
    simp
  rw [filtered, embeddedTexts]
  constructor
  · intro same field among embedded deleted
    -- the shorter list is a part of the longer one, so they have the same fields
    have sublist : (fields.filter fun field =>
        (field.name = none ∧ ¬ field.IsMarked) ∧ ¬ kind field).Sublist
        (fields.filter fun field => field.name = none ∧ ¬ field.IsMarked) :=
      List.monotone_filter_right _ fun other kept => by simp_all
    have equal := sublist.eq_of_length (by simpa using congrArg List.length same)
    by_contra unmarked
    have kept : field ∈ fields.filter fun field => field.name = none ∧ ¬ field.IsMarked :=
      List.mem_filter.mpr ⟨among, decide_eq_true ⟨embedded, unmarked⟩⟩
    rw [← equal, List.mem_filter, decide_eq_true_eq] at kept
    exact kept.2.2 deleted
  · intro marked
    refine congrArg _ (List.filter_congr fun field among => decide_eq_decide.mpr ?_)
    exact ⟨And.left, fun kept => ⟨kept, fun deleted => kept.2 (marked field among kept.1 deleted)⟩⟩

/-- A definition stays the same just if the embedded fields that are removed were marked. -/
theorem TypeDecl.definition_without_eq_iff (excluded : ∀ field, kind field → field.IsExcluded)
    (decl : TypeDecl) (unitName : String) (path : ImportPath) :
    (decl.without kind).definition unitName path = decl.definition unitName path ↔
      ∀ field ∈ decl.fields, field.name = none → kind field → field.IsMarked := by
  rw [definition_eq, definition_eq, without, memberTable_without excluded,
    ← embeddedTexts_without_eq_iff]
  exact ⟨congrArg Definition.embedded, fun same => by rw [same]⟩

end

/-- For every type, a field that is marked to be ignored is as good as absent, and so is a skipped
field that has a name. All excluded fields can be deleted without a change exactly if none of them
is embedded, skipped and not marked. Members come from fields that are not excluded, and embedded
texts from embedded fields that are not marked, skipped or not. A field of a source file is skipped
if its attributes say so or rename it to a dash. -/
theorem excluded_fields_silent_iff (decl : TypeDecl) (unitName : String) (path : ImportPath) :
    (decl.without fun field => field.IsMarked ∨ field.name ≠ none ∧ field.IsSkipped).definition
        unitName path = decl.definition unitName path ∧
    ((decl.without IsExcluded).definition unitName path = decl.definition unitName path ↔
      ∀ field ∈ decl.fields, field.name = none → field.IsSkipped → field.IsMarked) ∧
    (∀ entry ∈ (decl.definition unitName path).members, ∃ field ∈ decl.fields,
      ¬ field.IsExcluded ∧ field.name = some entry.1 ∧ field.member? path = some entry.2) ∧
    (decl.definition unitName path).embedded =
      (decl.fields.filter fun field => field.name = none ∧ ¬ field.IsMarked).map (·.typeText) ∧
    ∀ (context : SourceContext) (parameters : List String) (field : Source.Field),
      (FieldDecl.ofSource context parameters field).IsSkipped ↔
        leavesOut (Source.entriesNamed "serde" field.attributes) = true ∨
          newName? (Source.entriesNamed "serde" field.attributes) = some "-" := by
  refine ⟨?_, ?_, ?_, ?_, isSkipped_ofSource_iff⟩
  · refine (TypeDecl.definition_without_eq_iff ?_ decl unitName path).mpr ?_
    · exact fun field deleted => deleted.imp_right And.right
    · rintro field _ embedded (marked | ⟨named, _⟩)
      · exact marked
      · exact absurd embedded named
  · rw [TypeDecl.definition_without_eq_iff fun _ excluded => excluded]
    refine forall₃_congr fun field _ _ => ?_
    exact ⟨fun marked skipped => marked (Or.inr skipped), fun marked => Or.rec id marked⟩
  · rw [TypeDecl.definition_eq]
    intro entry among
    obtain ⟨field, declared, given⟩ := (mem_of_mem_memberTable among).resolve_left List.not_mem_nil
    have kept : ¬ field.IsExcluded := by
      intro excluded
      rw [namedMember?_of_excluded excluded] at given
      cases given
    obtain ⟨name, named, found⟩ := Option.bind_eq_some_iff.mp given
    obtain ⟨member, built, rfl⟩ := Option.map_eq_some_iff.mp found
    exact ⟨field, declared, kept, named, built⟩
  · rw [TypeDecl.definition_eq]
    rfl

/-- A type with a part that is merged into it and skipped. -/
def skippingFile : SourceFile :=
  ((SourceFile.read "lib.rs"
    "pub struct A \x7b pub id: i64, #[serde(flatten, skip)] pub b: B \x7d").toOption).getD default

/-- What the file declares. -/
def skippingType : TypeDecl where
  name := "A"
  fields :=
    [{ name := some "id", typeText := "i64" }, { typeText := "B", wire := some ⟨"-", false⟩ }]

set_option maxRecDepth 100000 in
/-- The skipped part is embedded, and is not if it is deleted. -/
theorem skipped_part_embedded :
    (DeclGroup.ofFiles "app" .library [] [skippingFile]).types = [skippingType] ∧
      skippingType.fields.map (fun field => (field.typeText, decide field.IsExcluded)) =
        [("i64", false), ("B", true)] ∧
      (skippingType.definition "app" "app").embedded = ["B"] ∧
      ((skippingType.without IsExcluded).definition "app" "app").embedded = [] ∧
      (skippingType.without IsExcluded).definition "app" "app" ≠
        skippingType.definition "app" "app" := by
  decide +kernel

end ApiDocs
