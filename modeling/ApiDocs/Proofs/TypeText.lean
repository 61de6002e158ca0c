import ApiDocs.Proofs.Names
import ApiDocs.Proofs.Text

/-!
# The notation of types

A type text is written from a tree of names, sequences and maps, with any number of pointer markers
before each part (`Written`). The member of a written text has the layers of the tree
(`Written.ofTypeText_eq`). A map is read back because what is written is balanced in brackets: the
bracket that ends the key is the first one that the key does not open (`splitBracket_append`).
-/

namespace ApiDocs.TypeText

/-! ## Brackets -/

/-- The number of open brackets after a text, if it closes none that is not open. -/
def depthAfter : Nat → List Char → Option Nat
  | depth, [] => some depth
  | depth, c :: rest =>
    if c = '[' then depthAfter (depth + 1) rest
    else if c = ']' then
      match depth with
      | 0 => none
      | depth + 1 => depthAfter depth rest
    else depthAfter depth rest

/-- The text closes the brackets that it opens, and no others. -/
def Balanced (text : List Char) : Prop := ∀ depth, depthAfter depth text = some depth

/-! The walks over brackets, one character at a time. -/

section

variable (depth : Nat) (rest : List Char)

theorem depthAfter_open : depthAfter depth ('[' :: rest) = depthAfter (depth + 1) rest := by
  rw [depthAfter.eq_def]
  rfl

theorem depthAfter_close : depthAfter (depth + 1) (']' :: rest) = depthAfter depth rest := by
  rw [depthAfter.eq_def]
  rfl

theorem depthAfter_other {c : Char} (notOpen : c ≠ '[') (notClose : c ≠ ']') :
    depthAfter depth (c :: rest) = depthAfter depth rest := by
  rw [depthAfter.eq_def]
  dsimp only
  rw [if_neg notOpen, if_neg notClose]

theorem splitBracket_open :
    splitBracket depth ('[' :: rest) =
      (splitBracket (depth + 1) rest).map fun (key, value) => ('[' :: key, value) := by
  rw [splitBracket.eq_def]
  rfl

theorem splitBracket_close :
    splitBracket (depth + 1) (']' :: rest) =
      (splitBracket depth rest).map fun (key, value) => (']' :: key, value) := by
  rw [splitBracket.eq_def]
  rfl

theorem splitBracket_other {c : Char} (notOpen : c ≠ '[') (notClose : c ≠ ']') :
    splitBracket depth (c :: rest) =
      (splitBracket depth rest).map fun (key, value) => (c :: key, value) := by
  rw [splitBracket.eq_def]
  dsimp only
  rw [if_neg notOpen, if_neg notClose]

end

/-- What a walk over a first part has seen stays seen. -/
theorem depthAfter_append {depth depth' : Nat} {part : List Char}
    (walked : depthAfter depth part = some depth') (rest : List Char) :
    depthAfter depth (part ++ rest) = depthAfter depth' rest := by
  induction part generalizing depth with
  | nil =>
      cases walked
      rfl
  | cons c part ih =>
      rw [List.cons_append]
      by_cases opens : c = '['
      · subst opens
        rw [depthAfter_open] at walked ⊢
        exact ih walked
      by_cases closes : c = ']'
      · subst closes
        cases depth with
        | zero => cases walked
        | succ depth =>
            rw [depthAfter_close] at walked ⊢
            exact ih walked
      · rw [depthAfter_other _ _ opens closes] at walked ⊢
        exact ih walked

/-- A split looks past a first part that closes no bracket too many. -/
theorem splitBracket_append {depth depth' : Nat} {part : List Char}
    (walked : depthAfter depth part = some depth') (rest : List Char) :
    splitBracket depth (part ++ rest) =
      (splitBracket depth' rest).map fun (key, value) => (part ++ key, value) := by
  induction part generalizing depth with
  | nil =>
      cases walked
      exact Option.map_id'.symm
  | cons c part ih =>
      rw [List.cons_append]
      by_cases opens : c = '['
      · subst opens
        rw [depthAfter_open] at walked
        rw [splitBracket_open, ih walked, Option.map_map]
        rfl
      by_cases closes : c = ']'
      · subst closes
        cases depth with
        | zero => cases walked
        | succ depth =>
            rw [depthAfter_close] at walked
            rw [splitBracket_close, ih walked, Option.map_map]
            rfl
      · rw [depthAfter_other _ _ opens closes] at walked
        rw [splitBracket_other _ _ opens closes, ih walked, Option.map_map]
        rfl

namespace Balanced

theorem append {text rest : List Char} (first : Balanced text) (second : Balanced rest) :
    Balanced (text ++ rest) := by
  intro depth
  rw [depthAfter_append (first depth)]
  exact second depth

theorem of_forall_ne {text : List Char} (unmarked : ∀ c ∈ text, c ≠ '[' ∧ c ≠ ']') :
    Balanced text := by
  intro depth
  induction text with
  | nil => rfl
  | cons c text ih =>
      obtain ⟨notOpening, notClosing⟩ := unmarked c List.mem_cons_self
      rw [depthAfter_other _ _ notOpening notClosing]
      exact ih fun d among => unmarked d (List.mem_cons_of_mem _ among)

/-- Brackets around a balanced text leave it balanced. -/
theorem bracketed {text : List Char} (inner : Balanced text) :
    Balanced ('[' :: (text ++ [']'])) := by
  intro depth
  rw [depthAfter_open, depthAfter_append (inner _)]
  rfl

/-- A balanced key ends at the first bracket that closes more than the key opens. -/
theorem splitBracket_eq {key : List Char} (balanced : Balanced key) (value : List Char) :
    splitBracket 0 (key ++ ']' :: value) = some (key, value) := by
  rw [splitBracket_append (balanced 0)]
  simp [splitBracket]

end Balanced

/-! ## Shapes of written layers -/

/-- The shape does not see pointer markers. -/
theorem shape_stripPointers (text : List Char) : shape (stripPointers text) = shape text := by
  rw [shape, stripPointers_stripPointers, shape]

theorem shape_pointer (text : List Char) : shape ('*' :: text) = shape text := by
  rw [← shape_stripPointers text, ← shape_stripPointers]
  rfl

theorem shape_sequence (element : List Char) :
    shape ('[' :: ']' :: element) = .collection element := by
  rfl

/-- The text of a mapping is split after its key, and its value loses its pointers. -/
theorem shape_map {key value : List Char} (balanced : Balanced key) (hasKey : key ≠ [])
    (hasValue : value ≠ []) :
    shape ("map[".toList ++ (key ++ ']' :: value)) = .mapping key (stripPointers value) := by
  have split : splitMap ("map[".toList ++ (key ++ ']' :: value)) = some (key, value) := by
    rw [splitMap, Text.after?_append]
    simp [balanced.splitBracket_eq, hasKey, hasValue]
  have bare : stripPointers ("map[".toList ++ (key ++ ']' :: value)) =
      "map[".toList ++ (key ++ ']' :: value) := rfl
  rw [shape, bare, split]

/-- A name without markers. -/
def Unmarked (name : String) : Prop :=
  name ≠ "" ∧ ∀ c ∈ name.toList, c ≠ '*' ∧ c ≠ '[' ∧ c ≠ ']'

-- Over the list: `Char` is finite, and its own instance would try all characters.
instance (name : String) : Decidable (Unmarked name) :=
  @instDecidableAnd _ _ inferInstance
    (List.decidableBAll (fun c => c ≠ '*' ∧ c ≠ '[' ∧ c ≠ ']') name.toList)

/-- A name without marks is its own scalar. -/
theorem Unmarked.shape_eq {name : String} (unmarked : Unmarked name) :
    shape name.toList = .scalar name.toList := by
  obtain ⟨_, none⟩ := unmarked
  have noBracket : '[' ∉ name.toList := fun among => (none _ among).2.1 rfl
  have bare : stripPointers name.toList = name.toList := by
    cases chars : name.toList with
    | nil => rfl
    | cons c rest =>
        have noStar : c ≠ '*' := (none c (chars ▸ List.mem_cons_self)).1
        simp [stripPointers, noStar]
  have noMap : splitMap name.toList = Option.none := by
    rw [splitMap]
    cases marked : Text.after? "map[".toList name.toList with
    | none => rfl
    | some rest =>
        rw [eq_append_of_after? marked] at noBracket
        exact absurd (by simp) noBracket
  have noSequence : Text.after? ['[', ']'] name.toList = Option.none := by
    cases marked : Text.after? ['[', ']'] name.toList with
    | none => rfl
    | some rest =>
        rw [eq_append_of_after? marked] at noBracket
        exact absurd (by simp) noBracket
  rw [shape, bare, noMap]
  dsimp only
  rw [noSequence]

/-- A member depends on no more of its text than the shape. -/
theorem ofTypeText_eq_of_shape {text text' : List Char} (same : shape text = shape text')
    (info : MemberInfo) : Member.ofTypeText text info = Member.ofTypeText text' info := by
  cases shaped : shape text' with
  | mapping key value =>
      rw [Member.ofTypeText_of_mapping shaped, Member.ofTypeText_of_mapping (same.trans shaped)]
  | collection element =>
      rw [Member.ofTypeText_of_collection shaped,
        Member.ofTypeText_of_collection (same.trans shaped)]
  | scalar bare =>
      rw [Member.ofTypeText_of_scalar shaped, Member.ofTypeText_of_scalar (same.trans shaped)]

/-! ## Trees and their texts -/

/-- The layers of a type, pointers aside. -/
inductive Tree where
  | name (text : String)
  | sequence (element : Tree)
  | map (key value : Tree)
deriving DecidableEq, Inhabited

/-- The member with the layers of a tree; only the outermost layer has all of `info`. -/
def Tree.member : Tree → MemberInfo → Member
  | .name text, info => .scalar info text none
  | .sequence element, info => .collection info (element.member info.nested)
  | .map key value, info => .mapping info (key.member info.nested) (value.member info.nested)

/-- The texts of a tree. -/
inductive Written : Tree → List Char → Prop where
  | name {text : String} (unmarked : Unmarked text) : Written (.name text) text.toList
  | pointer {tree : Tree} {text : List Char} (target : Written tree text) :
      Written tree ('*' :: text)
  | sequence {element : Tree} {text : List Char} (inner : Written element text) :
      Written (.sequence element) ('[' :: ']' :: text)
  | map {key value : Tree} {keyText valueText : List Char} (ofKey : Written key keyText)
      (ofValue : Written value valueText) :
      Written (.map key value) ("map[".toList ++ (keyText ++ ']' :: valueText))

namespace Written

variable {tree : Tree} {text : List Char}

/-- No type is written as the empty text. -/
theorem ne_nil (written : Written tree text) : text ≠ [] := by
  cases written with
  | @name text unmarked =>
      intro empty
      exact unmarked.1 (String.toList_inj.mp empty)
  | pointer target => exact List.cons_ne_nil _ _
  | sequence inner => exact List.cons_ne_nil _ _
  | map ofKey ofValue => exact List.cons_ne_nil _ _

/-- Every written type is balanced, so that it can be the key of a mapping. -/
theorem balanced (written : Written tree text) : Balanced text := by
  induction written with
  | name unmarked => exact .of_forall_ne fun c among => (unmarked.2 c among).2
  | pointer target ih =>
      have marker : Balanced ['*'] := .of_forall_ne (by simp)
      exact marker.append ih
  | sequence inner ih =>
      have marker : Balanced ['[', ']'] := fun _ => rfl
      exact marker.append ih
  | @map key value keyText valueText ofKey ofValue ihKey ihValue =>
      have letters : Balanced ['m', 'a', 'p'] := .of_forall_ne (by simp)
      have whole := letters.append (ihKey.bracketed.append ihValue)
      simpa using whole

/-- Reading a text gives the layers that it is written from. -/
theorem ofTypeText_eq (written : Written tree text) (info : MemberInfo) :
    Member.ofTypeText text info = tree.member info := by
  induction written generalizing info with
  | @name text unmarked =>
      rw [Member.ofTypeText_of_scalar unmarked.shape_eq, String.ofList_toList, Tree.member]
  | @pointer tree text target ih =>
      rw [ofTypeText_eq_of_shape (shape_pointer text), ih]
  | @sequence element text inner ih =>
      rw [Member.ofTypeText_of_collection (shape_sequence text), ih, Tree.member]
  | @map key value keyText valueText ofKey ofValue ihKey ihValue =>
      have shaped := shape_map ofKey.balanced ofKey.ne_nil ofValue.ne_nil
      rw [Member.ofTypeText_of_mapping shaped, ofTypeText_eq_of_shape (shape_stripPointers _),
        ihKey, ihValue, Tree.member]

end Written

end ApiDocs.TypeText
