import ApiDocs.Source.TypeText
import ApiDocs.Proofs.Table
import ApiDocs.Proofs.TypeText
import Mathlib.Data.List.Forall2
import Mathlib.Data.Option.Basic

/-!
# Types and the members of their texts

A type has a tree of names, sequences and maps of its own, to which pointers do not count
(`TypeExpr.tree`). The text of the type is written from that tree (`TypeExpr.written_text`), so the
member that a field of the type gets has the layers of the tree (`member_of_type_text`). The names
in the type and in the table of uses are assumed to have no markers in them, as identifiers do not.
-/

namespace ApiDocs.Source

open TypeText (Tree Written Unmarked)

/-! ## Trees of types -/

/-- The tree of a type of a known family from the trees of its arguments. -/
def familyTree? (name : String) (arguments : List Tree) : Option Tree :=
  if pointerNames.contains name then arguments.getLast?
  else if sequenceNames.contains name then arguments.head?.map .sequence
  else if mapNames.contains name then
    match arguments with
    | key :: value :: _ => some (.map key value)
    | _ => none
  else none

namespace TypeExpr

mutual

/-- The tree of a type where `parameters` are type parameters. -/
def tree (uses : UseTable) (parameters : List String) : TypeExpr → Tree
  | .reference target => tree uses parameters target
  | .pointer target => tree uses parameters target
  | .slice element => .sequence (tree uses parameters element)
  | .array element => .sequence (tree uses parameters element)
  | .paren inner => tree uses parameters inner
  | .tuple isEmpty => if isEmpty then .name anyText else .sequence (.name anyText)
  | .path first? name arguments =>
    match familyTree? name (trees uses parameters arguments) with
    | some tree => tree
    | none =>
      match first? with
      | none => .name (if parameters.contains name then anyText else uses.nameText name)
      | some first => .name (uses.pathText first name)
  | .other => .name anyText

/-- The trees of types. -/
def trees (uses : UseTable) (parameters : List String) : List TypeExpr → List Tree
  | [] => []
  | type :: types => tree uses parameters type :: trees uses parameters types

end

mutual

/-- The names of the paths in a type. -/
def names : TypeExpr → List String
  | .reference target => names target
  | .pointer target => names target
  | .slice element => names element
  | .array element => names element
  | .paren inner => names inner
  | .tuple _ => []
  | .path _ name arguments => name :: namesAll arguments
  | .other => []

/-- The names of the paths in types. -/
def namesAll : List TypeExpr → List String
  | [] => []
  | type :: types => names type ++ namesAll types

end

end TypeExpr

/-! ## Names -/

/-- The qualifiers and the names of items have no markers in them. -/
def UseTable.Unmarked (uses : UseTable) : Prop :=
  (∀ entry ∈ uses.qualifiers, TypeText.Unmarked entry.2) ∧
    ∀ entry ∈ uses.items, TypeText.Unmarked entry.2

instance (uses : UseTable) : Decidable uses.Unmarked :=
  inferInstanceAs (Decidable ((∀ entry ∈ uses.qualifiers, TypeText.Unmarked entry.2) ∧
    ∀ entry ∈ uses.items, TypeText.Unmarked entry.2))

theorem unmarked_anyText : Unmarked anyText := by
  decide +kernel

/-- A qualified name has no marks if its two parts have none. -/
theorem unmarked_qualified {qualifier name : String} (first : Unmarked qualifier)
    (second : Unmarked name) : Unmarked (qualifier ++ "." ++ name) := by
  refine ⟨?_, fun c among => ?_⟩
  · intro empty
    have chars := congrArg String.toList empty
    simp at chars
  · rw [String.toList_append, String.toList_append, List.mem_append, List.mem_append] at among
    rcases among with (inQualifier | point) | inName
    · exact first.2 c inQualifier
    · rw [List.mem_singleton.mp point]
      decide
    · exact second.2 c inName

namespace UseTable

variable {uses : UseTable}

theorem unmarked_nameText (unmarked : uses.Unmarked) {name : String}
    (plain : TypeText.Unmarked name) : TypeText.Unmarked (uses.nameText name) := by
  have declared : TypeText.Unmarked ((uses.items.get? name).getD name) := by
    cases found : uses.items.get? name with
    | none => exact plain
    | some item => exact unmarked.2 _ (Table.mem_of_get? found)
  rw [nameText]
  cases found : uses.qualifiers.get? name with
  | none => exact declared
  | some qualifier =>
      dsimp only
      split
      · exact declared
      · exact unmarked_qualified (unmarked.1 _ (Table.mem_of_get? found)) declared

theorem unmarked_pathText (unmarked : uses.Unmarked) (first : String) {name : String}
    (plain : TypeText.Unmarked name) : TypeText.Unmarked (uses.pathText first name) := by
  rw [pathText]
  cases found : uses.qualifiers.get? first with
  | none => exact plain
  | some qualifier => exact unmarked_qualified (unmarked.1 _ (Table.mem_of_get? found)) plain

end UseTable

/-! ## The text of a type is written from its tree -/

/-- The text is one of the tree's. -/
def Spells (tree : Tree) (text : String) : Prop := Written tree text.toList

theorem spells_pointer {tree : Tree} {text : String} (target : Spells tree text) :
    Spells tree ("*" ++ text) := by
  rw [Spells, String.toList_append]
  exact .pointer target

theorem spells_sequence {tree : Tree} {text : String} (element : Spells tree text) :
    Spells (.sequence tree) ("[]" ++ text) := by
  rw [Spells, String.toList_append]
  exact .sequence element

theorem spells_map {key value : Tree} {keyText valueText : String} (ofKey : Spells key keyText)
    (ofValue : Spells value valueText) :
    Spells (.map key value) ("map[" ++ keyText ++ "]" ++ valueText) := by
  rw [Spells, String.toList_append, String.toList_append, String.toList_append,
    List.append_assoc, List.append_assoc]
  exact .map ofKey ofValue

/-- The last of several texts spells the last of their trees. -/
theorem rel_getLast? {trees : List Tree} {texts : List String}
    (all : List.Forall₂ Spells trees texts) : Option.Rel Spells trees.getLast? texts.getLast? := by
  induction all with
  | nil => exact .none
  | @cons tree text trees texts one others ih =>
      cases others with
      | nil => exact .some one
      | cons next others =>
          rw [List.getLast?_cons_cons, List.getLast?_cons_cons]
          exact ih

/-- One family decides: without arguments none applies, with an argument the first one does. -/
theorem familyText?_eq (name : String) (arguments : List String) :
    familyText? name arguments =
      if pointerNames.contains name then arguments.getLast?.map ("*" ++ ·)
      else if sequenceNames.contains name then arguments.head?.map ("[]" ++ ·)
      else if mapNames.contains name then
        match arguments with
        | key :: value :: _ => some ("map[" ++ key ++ "]" ++ value)
        | _ => none
      else none := by
  unfold familyText?
  rcases arguments with _ | ⟨first, _ | ⟨second, others⟩⟩
  · simp
  · split_ifs <;> simp
  · split_ifs <;> simp [List.getLast?_cons]

/-- A type of a known family has a tree if it has a text, and the text is of the tree. -/
theorem rel_family (name : String) {trees : List Tree} {texts : List String}
    (arguments : List.Forall₂ Spells trees texts) :
    Option.Rel Spells (familyTree? name trees) (familyText? name texts) := by
  rw [familyTree?.eq_def, familyText?_eq]
  split_ifs
  · have last := rel_getLast? arguments
    generalize trees.getLast? = tree? at last ⊢
    generalize texts.getLast? = text? at last ⊢
    cases last with
    | none => exact .none
    | some spelled => exact .some (spells_pointer spelled)
  · cases arguments with
    | nil => exact .none
    | cons first others => exact .some (spells_sequence first)
  · rcases arguments with _ | ⟨first, _ | ⟨second, others⟩⟩
    · exact .none
    · exact .none
    · exact .some (spells_map first second)
  · exact .none

namespace TypeExpr

mutual

/-- The text of a type is written from its tree: every layer of the type is one of the text or a
pointer marker. -/
theorem spells_text {uses : UseTable} (unmarked : uses.Unmarked) (parameters : List String) :
    ∀ type : TypeExpr, (∀ name ∈ type.names, TypeText.Unmarked name) →
      Spells (type.tree uses parameters) (type.text uses parameters)
  | .reference target, plain => by
    rw [tree, text]
    exact spells_pointer (spells_text unmarked parameters target plain)
  | .pointer target, plain => by
    rw [tree, text]
    exact spells_pointer (spells_text unmarked parameters target plain)
  | .slice element, plain => by
    rw [tree, text]
    exact spells_sequence (spells_text unmarked parameters element plain)
  | .array element, plain => by
    rw [tree, text]
    exact spells_sequence (spells_text unmarked parameters element plain)
  | .paren inner, plain => by
    rw [tree, text]
    exact spells_text unmarked parameters inner plain
  | .tuple true, _ => .name unmarked_anyText
  | .tuple false, _ => spells_sequence (.name unmarked_anyText)
  | .path first? name arguments, plain => by
    have inArguments := spells_texts unmarked parameters arguments fun other among =>
      plain other (List.mem_cons_of_mem _ among)
    have plainName := plain name List.mem_cons_self
    have family := rel_family name inArguments
    rw [tree.eq_def, text.eq_def]
    dsimp only
    generalize familyTree? name (trees uses parameters arguments) = tree? at family ⊢
    generalize familyText? name (texts uses parameters arguments) = text? at family ⊢
    cases family with
    | some spelled => exact spelled
    | none =>
      cases first? with
      | some first => exact .name (UseTable.unmarked_pathText unmarked first plainName)
      | none =>
        dsimp only
        split
        · exact .name unmarked_anyText
        · exact .name (UseTable.unmarked_nameText unmarked plainName)
  | .other, _ => .name unmarked_anyText

/-- Types are spelled one by one. -/
theorem spells_texts {uses : UseTable} (unmarked : uses.Unmarked) (parameters : List String) :
    ∀ types : List TypeExpr, (∀ name ∈ namesAll types, TypeText.Unmarked name) →
      List.Forall₂ Spells (trees uses parameters types) (texts uses parameters types)
  | [], _ => .nil
  | type :: types, plain => by
    rw [trees, texts]
    refine .cons (spells_text unmarked parameters type fun name among => ?_)
      (spells_texts unmarked parameters types fun name among => ?_)
    · exact plain name (List.mem_append_left _ among)
    · exact plain name (List.mem_append_right _ among)

end

end TypeExpr

/-- The member of a type's text has the layers of the type. -/
theorem member_of_type_text {uses : UseTable} (unmarked : uses.Unmarked) (parameters : List String)
    (type : TypeExpr) (plain : ∀ name ∈ type.names, Unmarked name) (info : MemberInfo) :
    Member.ofTypeText (type.text uses parameters).toList info =
      (type.tree uses parameters).member info :=
  Written.ofTypeText_eq (TypeExpr.spells_text unmarked parameters type plain) info

/-- A map by byte sequences of boxed values, behind an optional reference; the value's type is
imported under a name of its own. -/
def ledgerType : TypeExpr :=
  .reference (.path none "Option" [.path none "HashMap" [.array (.path none "u8" []),
    .path none "Vec" [.path none "Box" [.path none "Entry" []]]]])

/-- The use that names the value's type. -/
def ledgerUses : UseTable := ⟨[("Entry", "books")], [("Entry", "Posting")]⟩

theorem member_of_ledgerType :
    ledgerUses.Unmarked ∧ (∀ name ∈ ledgerType.names, Unmarked name) ∧
      Member.ofTypeText (ledgerType.text ledgerUses ["T"]).toList
          { name := "entries", description := "By digest.", origin := "app" } =
        .mapping { name := "entries", description := "By digest.", origin := "app" }
          (.collection { name := "entries", origin := "app" }
            (.scalar { name := "entries", origin := "app" } "u8" none))
          (.collection { name := "entries", origin := "app" }
            (.scalar { name := "entries", origin := "app" } "books.Posting" none)) := by
  have unmarked : ledgerUses.Unmarked := by decide +kernel
  have plain : ∀ name ∈ ledgerType.names, Unmarked name := by decide +kernel
  refine ⟨unmarked, plain, ?_⟩
  rw [member_of_type_text unmarked ["T"] ledgerType plain]
  decide +kernel

end ApiDocs.Source
