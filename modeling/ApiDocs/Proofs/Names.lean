import ApiDocs.Proofs.Member
import Mathlib.Data.List.DropRight

/-!
# Plain names

A plain name has no points and no slashes. Between plain names the canonical name tells types
apart: equal canonical names have equal type names, and import paths that differ at most in the
choice of slash and point (`canonicalName_eq_iff`).

References inside a type text are parts of that text (`Member.sublist_of_mem_references`). So a
text without slashes and with at most one point refers to plain names only.
-/

namespace ApiDocs

/-- A name without points and slashes. -/
def Plain (name : String) : Prop := ∀ c ∈ name.toList, c ≠ '.' ∧ c ≠ '/' ∧ c ≠ '\\'

-- Over the list: `Char` is finite, and its own instance would try all characters.
instance (name : String) : Decidable (Plain name) :=
  List.decidableBAll (fun c => c ≠ '.' ∧ c ≠ '/' ∧ c ≠ '\\') name.toList

/-! ## Canonical names -/

/-- Points in place of slashes. -/
def pointedPath (path : List Char) : List Char := Text.swap '\\' '.' (Text.swap '/' '.' path)

theorem pointedPath_of_plain {name : String} (plain : Plain name) :
    pointedPath name.toList = name.toList := by
  have keeps : ∀ c ∈ name.toList,
      (if (if c = '/' then '.' else c) = '\\' then '.' else if c = '/' then '.' else c) = c := by
    intro c among
    obtain ⟨_, noSlash, noBackslash⟩ := plain c among
    rw [if_neg noSlash, if_neg noBackslash]
  rw [pointedPath, Text.swap, Text.swap, List.map_map]
  exact (List.map_congr_left keeps).trans (List.map_id _)

theorem toList_canonicalName (path name : String) :
    (canonicalName path name).toList =
      pointedPath path.toList ++ '.' :: pointedPath name.toList := by
  rw [canonicalName, String.toList_ofList, String.toList_append, String.toList_append]
  simp [pointedPath, Text.swap]

/-- Two texts are cut at their last point alike. -/
theorem append_point_inj {before before' after after' : List Char} (fresh : '.' ∉ after)
    (fresh' : '.' ∉ after') (same : before ++ '.' :: after = before' ++ '.' :: after') :
    before = before' ∧ after = after' := by
  have nothing : ∀ {rest tail tail' : List Char}, '.' ∉ tail →
      '.' :: tail = rest ++ '.' :: tail' → rest = [] ∧ tail = tail' := by
    intro rest tail tail' absent split
    cases rest with
    | nil => exact ⟨rfl, (List.cons.inj split).2⟩
    | cons c rest =>
        obtain ⟨_, inner⟩ := List.cons.inj split
        exact absurd (inner ▸ List.mem_append_right _ List.mem_cons_self) absent
  rcases List.append_eq_append_iff.mp same with ⟨rest, longer, split⟩ | ⟨rest, longer, split⟩
  · obtain ⟨rfl, ends⟩ := nothing fresh split
    exact ⟨by simpa using longer.symm, ends⟩
  · obtain ⟨rfl, ends⟩ := nothing fresh' split
    exact ⟨by simpa using longer, ends.symm⟩

/-- With plain names, canonical names are equal if the names are, and the paths up to their
points. -/
theorem canonicalName_eq_iff {path path' name name' : String} (plain : Plain name)
    (plain' : Plain name') :
    canonicalName path name = canonicalName path' name' ↔
      pointedPath path.toList = pointedPath path'.toList ∧ name = name' := by
  have noPoint : ∀ {n : String}, Plain n → '.' ∉ n.toList := fun p among => (p _ among).1 rfl
  constructor
  · intro same
    have lists := congrArg String.toList same
    rw [toList_canonicalName, toList_canonicalName, pointedPath_of_plain plain,
      pointedPath_of_plain plain'] at lists
    obtain ⟨paths, names⟩ := append_point_inj (noPoint plain) (noPoint plain') lists
    exact ⟨paths, String.toList_inj.mp names⟩
  · rintro ⟨paths, rfl⟩
    refine String.toList_inj.mp ?_
    rw [toList_canonicalName, toList_canonicalName, paths]

/-! ## References inside type texts -/

namespace TypeText

theorem eq_append_of_after? {start text rest : List Char}
    (found : Text.after? start text = some rest) : text = start ++ rest := by
  induction start generalizing text with
  | nil =>
      rw [Text.after?] at found
      exact Option.some.inj found
  | cons c start ih =>
      cases text with
      | nil => cases found
      | cons d text =>
          rw [Text.after?] at found
          split at found
          · rename_i same
            rw [ih found, same, List.cons_append]
          · cases found

theorem eq_append_of_splitBracket {depth : Nat} {text key value : List Char}
    (found : splitBracket depth text = some (key, value)) : text = key ++ ']' :: value := by
  induction text generalizing depth key with
  | nil => cases found
  | cons c text ih =>
      have further : ∀ {deeper : Nat} {pair : List Char × List Char},
          splitBracket deeper text = some pair → (c :: pair.1, pair.2) = (key, value) →
          c :: text = key ++ ']' :: value := by
        intro deeper pair inner same
        cases same
        rw [ih inner, List.cons_append]
      rw [splitBracket.eq_def] at found
      dsimp only at found
      split at found
      · obtain ⟨pair, inner, same⟩ := Option.map_eq_some_iff.mp found
        exact further inner same
      · split at found
        · rename_i closing
          split at found
          · cases found
            rw [closing, List.nil_append]
          · obtain ⟨pair, inner, same⟩ := Option.map_eq_some_iff.mp found
            exact further inner same
        · obtain ⟨pair, inner, same⟩ := Option.map_eq_some_iff.mp found
          exact further inner same

theorem eq_append_of_splitOnce {separator : Char} {text before after : List Char}
    (found : Text.splitOnce separator text = some (before, after)) :
    text = before ++ separator :: after := by
  induction text generalizing before with
  | nil => cases found
  | cons c text ih =>
      rw [Text.splitOnce] at found
      split at found
      · rename_i same
        cases found
        rw [same, List.nil_append]
      · obtain ⟨⟨before', after'⟩, inner, same⟩ := Option.map_eq_some_iff.mp found
        cases same
        rw [ih inner, List.cons_append]

theorem not_mem_of_splitOnce_eq_none {separator : Char} {text : List Char}
    (absent : Text.splitOnce separator text = none) : separator ∉ text := by
  induction text with
  | nil => exact List.not_mem_nil
  | cons c text ih =>
      rw [Text.splitOnce] at absent
      split at absent
      · cases absent
      · rename_i differs
        rw [List.mem_cons, not_or]
        exact ⟨Ne.symm differs, ih (Option.map_eq_none_iff.mp absent)⟩

/-- Pointers are stripped all at once. -/
theorem stripPointers_stripPointers (text : List Char) :
    stripPointers (stripPointers text) = stripPointers text :=
  List.dropWhile_idempotent _ _

theorem stripPointers_sublist (text : List Char) : (stripPointers text).Sublist text :=
  List.dropWhile_sublist _

/-- The layers of a text are parts of it. -/
theorem sublist_of_shape {text : List Char} :
    match shape text with
    | .mapping key value => key.Sublist text ∧ value.Sublist text
    | .collection element => element.Sublist text
    | .scalar bare => bare.Sublist text := by
  have bare := stripPointers_sublist text
  rw [shape]
  cases split : splitMap (stripPointers text) with
  | some layers =>
      obtain ⟨key, value⟩ := layers
      rw [splitMap, Option.bind_eq_bind, Option.bind_eq_some_iff] at split
      obtain ⟨rest, marked, split⟩ := split
      rw [Option.bind_eq_bind, Option.bind_eq_some_iff] at split
      obtain ⟨⟨key', value'⟩, brackets, split⟩ := split
      dsimp only at split ⊢
      split at split
      · cases split
      · cases split
        have whole : stripPointers text = "map[".toList ++ (key ++ ']' :: value) := by
          rw [eq_append_of_after? marked, eq_append_of_splitBracket brackets]
        rw [whole] at bare
        have inner : (key ++ ']' :: value).Sublist text :=
          (List.sublist_append_right _ _).trans bare
        refine ⟨(List.sublist_append_left _ _).trans inner, ?_⟩
        refine (stripPointers_sublist value).trans (List.Sublist.trans ?_ inner)
        exact (List.sublist_cons_self _ _).trans (List.sublist_append_right _ _)
  | none =>
      dsimp only
      cases marked : Text.after? ['[', ']'] (stripPointers text) with
      | some element =>
          rw [eq_append_of_after? marked] at bare
          exact (List.sublist_append_right _ _).trans bare
      | none => exact bare

/-- A text without slashes and with at most one point refers to a plain name. -/
theorem plain_reference {text : String} (once : text.toList.count '.' ≤ 1)
    (noSlash : '/' ∉ text.toList) (noBackslash : '\\' ∉ text.toList) :
    Plain (reference text).name := by
  have part := stripPointers_sublist text.toList
  have points := Nat.le_trans (part.count_le '.') once
  -- It remains to see that no point is left in the part that becomes the name.
  have plain : ∀ {name : List Char}, name.Sublist (stripPointers text.toList) → '.' ∉ name →
      Plain (.ofList name) := by
    intro name within noPoint c among
    rw [String.toList_ofList] at among
    have inText := (within.trans part).subset among
    refine ⟨?_, ?_, ?_⟩
    · rintro rfl
      exact noPoint among
    · rintro rfl
      exact noSlash inText
    · rintro rfl
      exact noBackslash inText
  rw [reference]
  cases split : Text.splitOnce '.' (stripPointers text.toList) with
  | none => exact plain (List.Sublist.refl _) (not_mem_of_splitOnce_eq_none split)
  | some parts =>
      obtain ⟨qualifier, name⟩ := parts
      have whole := eq_append_of_splitOnce split
      refine plain ?_ fun among => ?_
      · rw [whole]
        exact (List.sublist_cons_self _ _).trans (List.sublist_append_right _ _)
      · rw [whole, List.count_append, List.count_cons_self] at points
        have positive := List.count_pos_iff.mpr among
        omega

end TypeText

namespace Member

/-- The references of a member depend on the text of its type only. -/
theorem references_ofTypeText_info (text : List Char) (info info' : MemberInfo) :
    (ofTypeText text info).references = (ofTypeText text info').references := by
  fun_induction ofTypeText text info generalizing info' with
  | case1 text info key value shaped ihKey ihValue =>
      rw [ofTypeText_of_mapping shaped, references, references, ihKey info'.nested,
        ihValue info'.nested]
  | case2 text info element shaped ih =>
      rw [ofTypeText_of_collection shaped, references, references, ih info'.nested]
  | case3 text info bare shaped =>
      rw [ofTypeText_of_scalar shaped, references, references]

/-- A reference inside the member of a type text is a part of the text. -/
theorem sublist_of_mem_references {text : List Char} {info : MemberInfo} {part : String}
    (among : part ∈ (ofTypeText text info).references) : part.toList.Sublist text := by
  have layers := @TypeText.sublist_of_shape
  fun_induction ofTypeText text info with
  | case1 text info key value shaped ihKey ihValue =>
      obtain ⟨keyPart, valuePart⟩ : key.Sublist text ∧ value.Sublist text := by
        simpa only [shaped] using @layers text
      rcases List.mem_append.mp among with inKey | inValue
      · exact (ihKey inKey).trans keyPart
      · exact (ihValue inValue).trans valuePart
  | case2 text info element shaped ih =>
      have elementPart : element.Sublist text := by simpa only [shaped] using @layers text
      exact (ih among).trans elementPart
  | case3 text info bare shaped =>
      have barePart : bare.Sublist text := by simpa only [shaped] using @layers text
      rw [references] at among
      split at among
      · cases among
      · rw [List.mem_singleton.mp among, String.toList_ofList]
        exact barePart

/-- A type text without slashes and with at most one point refers to plain names only. -/
theorem plain_of_mem_references {text : List Char} {info : MemberInfo} (once : text.count '.' ≤ 1)
    (noSlash : '/' ∉ text) (noBackslash : '\\' ∉ text) {part : String}
    (among : part ∈ (ofTypeText text info).references) : Plain (TypeText.reference part).name := by
  have within := sublist_of_mem_references among
  exact TypeText.plain_reference (Nat.le_trans (within.count_le '.') once)
    (fun slash => noSlash (within.subset slash)) fun slash => noBackslash (within.subset slash)

end Member

end ApiDocs
