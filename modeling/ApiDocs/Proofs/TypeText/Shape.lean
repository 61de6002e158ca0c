import ApiDocs.Proofs.TypeText

/-!
# What a type text is taken for

A text is a map if it is `map[`, a key, `]` and a value, where neither is empty and the key closes
exactly the brackets that it opens. `Nested` says the latter by counting, without a walk over the
text. The walk that looks for the end of the key keeps a counter, which is at every place the number
of brackets that are open there (`depthAfter_eq_some_iff`), so it stops at the one place where the
key can end (`splitBracket_eq_some_iff`), and a text has no two readings as a map. Every other text
is a sequence if it begins with `[]`, and a name if not (`shapes_recognized`).

What is taken off with a layer makes the parts of a text shorter than the text, which bounds the
number of members that are made from it (`count_ofTypeText_le`).
-/

namespace ApiDocs.TypeText

/-! ## Nested brackets -/

/-- No beginning of the text closes more brackets than it opens. -/
def Opens (text : List Char) : Prop := ∀ start, start <+: text → start.count ']' ≤ start.count '['

/-- The text closes the brackets that it opens, and no others. -/
structure Nested (text : List Char) : Prop where
  opens : Opens text
  closed : text.count '[' = text.count ']'

/-- Where `depth` brackets are open before the text, none is closed that is not open, and `left` are
open after it. -/
structure Leaves (depth : Nat) (text : List Char) (left : Nat) : Prop where
  within : ∀ start, start <+: text → start.count ']' ≤ depth + start.count '['
  total : left + text.count ']' = depth + text.count '['

theorem opens_iff {text : List Char} : Opens text ↔ ∃ left, Leaves 0 text left := by
  constructor
  · intro opens
    have enough := opens text List.prefix_rfl
    exact ⟨text.count '[' - text.count ']', fun start begins => by simpa using opens start begins,
      by omega⟩
  · rintro ⟨left, leaves⟩ start begins
    simpa using leaves.within start begins

theorem nested_iff {text : List Char} : Nested text ↔ Leaves 0 text 0 := by
  constructor
  · rintro ⟨opens, closed⟩
    exact ⟨fun start begins => by simpa using opens start begins, by simp [closed]⟩
  · intro leaves
    exact ⟨opens_iff.mpr ⟨0, leaves⟩, by simpa using leaves.total.symm⟩

/-- One character changes the number of open brackets by what it opens and closes. -/
theorem leaves_cons {depth depth' left : Nat} {c : Char} {text : List Char}
    (next : depth' + [c].count ']' = depth + [c].count '[') :
    Leaves depth (c :: text) left ↔ Leaves depth' text left := by
  have counts : ∀ (d : Char) (rest : List Char),
      (c :: rest).count d = [c].count d + rest.count d := by
    intro d rest
    rw [← List.singleton_append, List.count_append]
  constructor
  · rintro ⟨within, total⟩
    rw [counts ']' text, counts '[' text] at total
    refine ⟨fun start begins => ?_, by omega⟩
    have further := within (c :: start) (List.cons_prefix_cons.mpr ⟨rfl, begins⟩)
    rw [counts ']' start, counts '[' start] at further
    omega
  · rintro ⟨within, total⟩
    refine ⟨fun start begins => ?_, by rw [counts ']' text, counts '[' text]; omega⟩
    rcases List.prefix_cons_iff.mp begins with rfl | ⟨rest, rfl, inside⟩
    · exact Nat.zero_le _
    · have further := within rest inside
      rw [counts ']' rest, counts '[' rest]
      omega

/-! ## The walk over brackets -/

/-- The counter of the walk is the number of brackets that are open, and the walk goes on as long as
none is closed that is not open. -/
theorem depthAfter_eq_some_iff {depth left : Nat} {text : List Char} :
    depthAfter depth text = some left ↔ Leaves depth text left := by
  induction text generalizing depth with
  | nil =>
      rw [depthAfter, Option.some.injEq]
      constructor
      · rintro rfl
        exact ⟨fun start begins => by simp [List.prefix_nil.mp begins], rfl⟩
      · intro leaves
        simpa using leaves.total.symm
  | cons c text ih =>
      by_cases opens : c = '['
      · subst opens
        have next : depth + 1 + ['['].count ']' = depth + ['['].count '[' := rfl
        rw [depthAfter_open, ih, leaves_cons next]
      by_cases closes : c = ']'
      · subst closes
        cases depth with
        | zero =>
            -- the walk stops here, and this beginning closes one too many
            refine iff_of_false (Option.some_ne_none left).symm fun leaves => ?_
            have tooMany := leaves.within [']'] (List.cons_prefix_cons.mpr ⟨rfl, List.nil_prefix⟩)
            simp at tooMany
        | succ depth =>
            have next : depth + [']'].count ']' = depth + 1 + [']'].count '[' := rfl
            rw [depthAfter_close, ih, leaves_cons next]
      · have next : depth + [c].count ']' = depth + [c].count '[' := by simp [opens, closes]
        rw [depthAfter_other _ _ opens closes, ih, leaves_cons next]

theorem Nested.balanced {text : List Char} (nested : Nested text) : Balanced text := by
  intro depth
  rw [depthAfter_eq_some_iff]
  refine ⟨fun start begins => ?_, by rw [nested.closed]⟩
  have enough := nested.opens start begins
  omega

/-- The walk passes over a text that closes no bracket too many, and has then counted those that are
open. -/
theorem splitBracket_of_opens {read : List Char} (opens : Opens read) (rest : List Char) :
    ∃ depth, depth + read.count ']' = read.count '[' ∧
      splitBracket 0 (read ++ rest) =
        (splitBracket depth rest).map (Prod.map (read ++ ·) id) := by
  obtain ⟨depth, leaves⟩ := opens_iff.mp opens
  refine ⟨depth, by simpa using leaves.total, ?_⟩
  exact splitBracket_append (depthAfter_eq_some_iff.mpr leaves) rest

/-- Up to where the walk stops it has closed what was open before. -/
theorem depthAfter_of_splitBracket {depth : Nat} {text key value : List Char}
    (found : splitBracket depth text = some (key, value)) : depthAfter depth key = some 0 := by
  induction text generalizing depth key with
  | nil => cases found
  | cons c text ih =>
      by_cases opens : c = '['
      · subst opens
        rw [splitBracket_open] at found
        obtain ⟨⟨inner, value'⟩, further, same⟩ := Option.map_eq_some_iff.mp found
        cases same
        rw [depthAfter_open, ih further]
      by_cases closes : c = ']'
      · subst closes
        cases depth with
        | zero =>
            cases found
            rfl
        | succ depth =>
            rw [splitBracket_close] at found
            obtain ⟨⟨inner, value'⟩, further, same⟩ := Option.map_eq_some_iff.mp found
            cases same
            rw [depthAfter_close, ih further]
      · rw [splitBracket_other _ _ opens closes] at found
        obtain ⟨⟨inner, value'⟩, further, same⟩ := Option.map_eq_some_iff.mp found
        cases same
        rw [depthAfter_other _ _ opens closes, ih further]

/-- The walk finds the end of a nested key, and nothing else. -/
theorem splitBracket_eq_some_iff {text key value : List Char} :
    splitBracket 0 text = some (key, value) ↔ text = key ++ ']' :: value ∧ Nested key := by
  constructor
  · intro found
    have nested := depthAfter_eq_some_iff.mp (depthAfter_of_splitBracket found)
    exact ⟨eq_append_of_splitBracket found, nested_iff.mpr nested⟩
  · rintro ⟨rfl, nested⟩
    exact nested.balanced.splitBracket_eq value

/-! ## Maps -/

/-- The text is `map[`, a key, `]` and a value. -/
structure IsMap (text key value : List Char) : Prop where
  written : text = "map[".toList ++ (key ++ ']' :: value)
  hasKey : key ≠ []
  hasValue : value ≠ []
  nested : Nested key

theorem splitMap_eq_some_iff {text key value : List Char} :
    splitMap text = some (key, value) ↔ IsMap text key value := by
  constructor
  · intro found
    rw [splitMap, Option.bind_eq_bind, Option.bind_eq_some_iff] at found
    obtain ⟨rest, marked, found⟩ := found
    rw [Option.bind_eq_bind, Option.bind_eq_some_iff] at found
    obtain ⟨⟨key', value'⟩, split, found⟩ := found
    dsimp only at found
    split at found
    · cases found
    · rename_i filled
      cases found
      rw [Bool.or_eq_true, not_or, List.isEmpty_iff, List.isEmpty_iff] at filled
      obtain ⟨rfl, nested⟩ := splitBracket_eq_some_iff.mp split
      exact ⟨eq_append_of_after? marked, filled.1, filled.2, nested⟩
  · rintro ⟨rfl, hasKey, hasValue, nested⟩
    rw [splitMap, Text.after?_append, Option.bind_eq_bind, Option.bind_some,
      splitBracket_eq_some_iff.mpr ⟨rfl, nested⟩]
    simp [hasKey, hasValue]

theorem IsMap.unique {text key value key' value' : List Char} (isMap : IsMap text key value)
    (other : IsMap text key' value') : key' = key ∧ value' = value := by
  have same := (splitMap_eq_some_iff.mpr other).symm.trans (splitMap_eq_some_iff.mpr isMap)
  cases same
  exact ⟨rfl, rfl⟩

/-! ## Shapes -/

section

variable {text key value element bare : List Char}

theorem shape_eq_mapping_iff :
    shape text = .mapping key value ↔
      ∃ written, IsMap (stripPointers text) key written ∧ value = stripPointers written := by
  unfold shape
  dsimp only
  constructor
  · intro shaped
    split at shaped
    · rename_i key' written found
      cases shaped
      exact ⟨written, splitMap_eq_some_iff.mp found, rfl⟩
    · split at shaped <;> cases shaped
  · rintro ⟨written, isMap, rfl⟩
    rw [splitMap_eq_some_iff.mpr isMap]

/-- A text that is no map is looked at for the mark of a sequence. -/
theorem shape_of_not_map (noMap : ¬ ∃ key value, IsMap (stripPointers text) key value) :
    shape text =
      (Text.after? ['[', ']'] (stripPointers text)).elim (.scalar (stripPointers text))
        .collection := by
  have split : splitMap (stripPointers text) = none := by
    cases found : splitMap (stripPointers text) with
    | none => rfl
    | some parts => exact absurd ⟨parts.1, parts.2, splitMap_eq_some_iff.mp found⟩ noMap
  unfold shape
  dsimp only
  rw [split]
  cases Text.after? ['[', ']'] (stripPointers text) with
  | none => rfl
  | some element => rfl

theorem not_map_of_shape {shaped : Shape} (found : shape text = shaped)
    (other : ∀ key value, shaped ≠ .mapping key value) :
    ¬ ∃ key value, IsMap (stripPointers text) key value := by
  rintro ⟨key, value, isMap⟩
  exact other key _ (found.symm.trans (shape_eq_mapping_iff.mpr ⟨value, isMap, rfl⟩))

theorem shape_eq_collection_iff :
    shape text = .collection element ↔
      (¬ ∃ key value, IsMap (stripPointers text) key value) ∧
        stripPointers text = '[' :: ']' :: element := by
  constructor
  · intro shaped
    have noMap := not_map_of_shape shaped nofun
    rw [shape_of_not_map noMap] at shaped
    refine ⟨noMap, ?_⟩
    cases found : Text.after? ['[', ']'] (stripPointers text) with
    | none =>
        rw [found] at shaped
        cases shaped
    | some rest =>
        rw [found] at shaped
        cases shaped
        exact eq_append_of_after? found
  · rintro ⟨noMap, begins⟩
    rw [shape_of_not_map noMap, begins]
    rfl

theorem shape_eq_scalar_iff :
    shape text = .scalar bare ↔
      (¬ ∃ key value, IsMap (stripPointers text) key value) ∧
        ¬ ['[', ']'] <+: stripPointers text ∧ bare = stripPointers text := by
  constructor
  · intro shaped
    have noMap := not_map_of_shape shaped nofun
    rw [shape_of_not_map noMap] at shaped
    cases found : Text.after? ['[', ']'] (stripPointers text) with
    | none =>
        rw [found] at shaped
        cases shaped
        refine ⟨noMap, ?_, rfl⟩
        rintro ⟨element, begins⟩
        rw [← begins, Text.after?_append] at found
        cases found
    | some rest =>
        rw [found] at shaped
        cases shaped
  · rintro ⟨noMap, noMark, rfl⟩
    rw [shape_of_not_map noMap]
    cases found : Text.after? ['[', ']'] (stripPointers text) with
    | none => rfl
    | some rest => exact absurd ⟨_, (eq_append_of_after? found).symm⟩ noMark

end

/-! ## Parts -/

/-- A part of a text that an inner member is made from. -/
inductive IsPart (text : List Char) : List Char → Prop
  | key {key value : List Char} : shape text = .mapping key value → IsPart text key
  | value {key value : List Char} : shape text = .mapping key value → IsPart text value
  | element {element : List Char} : shape text = .collection element → IsPart text element

theorem IsPart.length_lt {text part : List Char} (isPart : IsPart text part) :
    part.length < text.length := by
  cases isPart with
  | key shaped => exact (length_of_shape_mapping shaped).1
  | value shaped => exact (length_of_shape_mapping shaped).2
  | element shaped => exact length_of_shape_collection shaped

/-- The marks of a map are five characters. -/
theorem length_of_mapping {text key value : List Char} (shaped : shape text = .mapping key value) :
    key.length + value.length + 5 ≤ text.length := by
  obtain ⟨written, isMap, rfl⟩ := shape_eq_mapping_iff.mp shaped
  have whole := congrArg List.length isMap.written
  have bare := length_stripPointers_le text
  have value := length_stripPointers_le written
  simp at whole
  omega

end ApiDocs.TypeText

namespace ApiDocs

/-- The number of members that a member is made of. -/
def Member.count : Member → Nat
  | .scalar _ _ _ => 1
  | .collection _ element => element.count + 1
  | .mapping _ key value => key.count + value.count + 1

/-- No more members are made from a text than it has characters, and one. -/
theorem Member.count_ofTypeText_le (text : List Char) (info : MemberInfo) :
    (ofTypeText text info).count ≤ text.length + 1 := by
  fun_induction ofTypeText text info with
  | case1 text info key value shaped ihKey ihValue =>
      have marks := TypeText.length_of_mapping shaped
      rw [count]
      omega
  | case2 text info element shaped ih =>
      have shorter := TypeText.length_of_shape_collection shaped
      rw [count]
      omega
  | case3 text info bare shaped => exact Nat.le_add_left _ _

namespace TypeText

/-- A text is taken for a map just if it is one, pointers aside, and then in one way only; else for
a sequence just if it begins with `[]`; else for a name. On the way to the end of a key the counter
is the number of brackets that are open, which is never less than none. The parts that inner members
are made from are shorter than the text, so that a text makes only so many members. -/
theorem shapes_recognized (text : List Char) :
    (∀ key value, shape text = .mapping key value ↔
        ∃ written, IsMap (stripPointers text) key written ∧ value = stripPointers written) ∧
      (∀ key value key' value', IsMap (stripPointers text) key value →
        IsMap (stripPointers text) key' value' → key' = key ∧ value' = value) ∧
      (∀ element, shape text = .collection element ↔
        (¬ ∃ key value, IsMap (stripPointers text) key value) ∧
          stripPointers text = '[' :: ']' :: element) ∧
      (∀ bare, shape text = .scalar bare ↔
        (¬ ∃ key value, IsMap (stripPointers text) key value) ∧
          ¬ ['[', ']'] <+: stripPointers text ∧ bare = stripPointers text) ∧
      (∀ read rest, Opens read →
        ∃ depth, depth + read.count ']' = read.count '[' ∧
          splitBracket 0 (read ++ rest) =
            (splitBracket depth rest).map (Prod.map (read ++ ·) id)) ∧
      (∀ part, IsPart text part → part.length < text.length) ∧
      ∀ info, (Member.ofTypeText text info).count ≤ text.length + 1 := by
  refine ⟨fun _ _ => shape_eq_mapping_iff, fun _ _ _ _ isMap other => isMap.unique other,
    fun _ => shape_eq_collection_iff, fun _ => shape_eq_scalar_iff,
    fun _ rest opens => splitBracket_of_opens opens rest, fun _ isPart => isPart.length_lt,
    Member.count_ofTypeText_le text⟩

/-- The key of a map may have brackets, and its value may be a map; a map without a key is a name.
-/
theorem shapes_recognized_nested :
    IsMap "map[[]u8]*map[String]i64".toList "[]u8".toList "*map[String]i64".toList ∧
      shape "**map[[]u8]*map[String]i64".toList =
        .mapping "[]u8".toList "map[String]i64".toList ∧
      "[]u8".toList.length < "**map[[]u8]*map[String]i64".toList.length ∧
      shape "map[]String".toList = .scalar "map[]String".toList := by
  have isMap : IsMap "map[[]u8]*map[String]i64".toList "[]u8".toList "*map[String]i64".toList :=
    splitMap_eq_some_iff.mp (by decide +kernel)
  have noMap : ¬ ∃ key value, IsMap "map[]String".toList key value := by
    rintro ⟨key, value, isMap⟩
    have split : splitMap "map[]String".toList = none := by decide +kernel
    rw [splitMap_eq_some_iff.mpr isMap] at split
    cases split
  obtain ⟨maps, _, _, _, _, parts, _⟩ := shapes_recognized "**map[[]u8]*map[String]i64".toList
  have shaped := (maps _ _).mpr ⟨_, isMap, rfl⟩
  obtain ⟨_, _, _, names, _⟩ := shapes_recognized "map[]String".toList
  exact ⟨isMap, shaped, parts _ (.key shaped), (names _).mpr ⟨noMap, by decide +kernel, rfl⟩⟩

end TypeText

end ApiDocs
