import ApiDocs.TypeText

/-!
# Types in directives

Directives write types as `Vec<T>`, `Option<T>`, `Box<T>` and paths with `::` or points.
`fieldText` turns them into the notation of field types.
-/

namespace ApiDocs.Directive

/-- Writes `::` as a point. -/
def pointed : List Char → List Char
  | ':' :: ':' :: rest => '.' :: pointed rest
  | c :: rest => c :: pointed rest
  | [] => []

/-- The argument of a wrapper type. -/
def argument? (wrapper text : List Char) : Option (List Char) := do
  let rest ← Text.after? wrapper text
  let rest ← Text.after? ['<'] rest
  Text.before? ['>'] rest

/-- The segments of a path that are not empty. -/
def segments (text : List Char) : List (List Char) :=
  (Text.splitAll '.' text).filter (!·.isEmpty)

/-- Path beginnings that stand for the unit itself. -/
def ownUnit : List (List Char) := ["crate".toList, "self".toList, "super".toList]

/-- The reference of a path: its last segment, qualified by the first one unless that stands for
the unit itself. -/
def pathReference (segments : List (List Char)) : List Char :=
  match segments with
  | [] => []
  | first :: rest =>
    match rest.getLast? with
    | none => first
    | some last => if ownUnit.contains first then last else first ++ '.' :: last

/-- The layer that a text begins with. -/
inductive Layer where
  | sequence (argument : List Char)
  | pointer (argument : List Char)
  | path (text : List Char)

/-- Takes the outermost layer off a directive type. -/
def layer (text : List Char) : Layer :=
  let bare := pointed (Text.trim text)
  match argument? "Vec".toList bare with
  | some inner => .sequence inner
  | none =>
    match (argument? "Option".toList bare).or (argument? "Box".toList bare) with
    | some inner => .pointer inner
    | none => .path bare

/-! ## Arguments are shorter -/

theorem length_pointed_le (text : List Char) : (pointed text).length ≤ text.length := by
  fun_induction pointed text <;> simp_all
  omega

theorem length_trim_le (text : List Char) : (Text.trim text).length ≤ text.length := by
  simp only [Text.trim, Text.trimEnd, Text.dropTail, Text.trimStart, List.length_reverse]
  have inner := (List.dropWhile_sublist (l := text) Text.isBlank).length_le
  have outer := (List.dropWhile_sublist
    (l := (text.dropWhile Text.isBlank).reverse) Text.isBlank).length_le
  simp only [List.length_reverse] at outer
  omega

theorem length_argument? {wrapper text inner : List Char}
    (found : argument? wrapper text = some inner) : inner.length < text.length := by
  simp only [argument?, Option.bind_eq_bind, Option.bind_eq_some_iff] at found
  obtain ⟨rest, afterName, rest', afterOpen, ends⟩ := found
  simp only [Text.before?, Option.map_eq_some_iff] at ends
  obtain ⟨reversed, closes, same⟩ := ends
  have first := TypeText.length_after? afterName
  have second := TypeText.length_after? afterOpen
  have third := TypeText.length_after? closes
  have length_inner := congrArg List.length same
  simp at second third length_inner
  omega

theorem length_bare_le (text : List Char) : (pointed (Text.trim text)).length ≤ text.length :=
  Nat.le_trans (length_pointed_le _) (length_trim_le _)

theorem length_of_layer_sequence {text inner : List Char} (found : layer text = .sequence inner) :
    inner.length < text.length := by
  have bare := length_bare_le text
  simp only [layer] at found
  split at found
  · rename_i argument
    simp only [Layer.sequence.injEq] at found
    subst found
    have := length_argument? argument
    omega
  · split at found <;> simp at found

theorem length_of_layer_pointer {text inner : List Char} (found : layer text = .pointer inner) :
    inner.length < text.length := by
  have bare := length_bare_le text
  simp only [layer] at found
  split at found
  · simp at found
  · split at found
    · rename_i argument
      simp only [Layer.pointer.injEq] at found
      subst found
      rcases Option.or_eq_some_iff.1 argument with wrapped | ⟨_, wrapped⟩
      · have := length_argument? wrapped
        omega
      · have := length_argument? wrapped
        omega
    · simp at found

/-! ## Field types -/

/-- A directive type in the notation of field types. -/
def fieldText (text : List Char) : List Char :=
  match _found : layer text with
  | .sequence inner => '[' :: ']' :: fieldText inner
  | .pointer inner => '*' :: fieldText inner
  | .path bare => pathReference (segments bare)
termination_by text.length
decreasing_by
  · exact length_of_layer_sequence _found
  · exact length_of_layer_pointer _found

end ApiDocs.Directive
