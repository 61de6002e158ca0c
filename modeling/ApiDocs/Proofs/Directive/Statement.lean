import ApiDocs.Directive.OfOperation
import ApiDocs.Proofs.Number
import ApiDocs.Proofs.Text.Pattern

/-!
# Statements about an operation

A statement is written as a line of fields with blanks between them: a word after a sign, and the
values (`Statement.fields`, `Spaced`). The classes of the values have neither blanks nor the sign,
so the fields are captured one by one (`Spaced.fits_token` and its like), and the line of a
statement is one line with one sign (`Statement.whole_of_spaced`, `Statement.exists_tail`).
-/

namespace ApiDocs.Directive

open Text Text.Pattern

/-! ## Classes of characters -/

/-- A class without blanks and without the sign of statements. -/
def Solid (member : Char → Bool) : Prop := ∀ c, isBlank c = true ∨ c = '@' → member c = false

namespace Solid

variable {member : Char → Bool}

theorem blank (solid : Solid member) {c : Char} (isBlank_c : isBlank c = true) : member c = false :=
  solid c (.inl isBlank_c)

theorem isBlank_eq_false (solid : Solid member) {c : Char} (inClass : member c = true) :
    isBlank c = false := by
  cases blank : isBlank c with
  | false => rfl
  | true =>
      rw [solid.blank blank] at inClass
      cases inClass

/-- One more character keeps a class solid if it is no blank and not the sign. -/
theorem or (solid : Solid member) {d : Char} (blank : isBlank d = false) (sign : d ≠ '@') :
    Solid fun c => member c || c == d := by
  intro c outside
  have differs : (c == d) = false := by
    rw [beq_eq_false_iff_ne]
    rintro rfl
    rcases outside with blank' | same
    · rw [blank] at blank'
      cases blank'
    · exact sign same
  change (member c || c == d) = false
  rw [solid c outside, differs, Bool.or_false]

end Solid

/-- Words are letters, digits and underscores, so they have neither blanks nor the sign. -/
theorem solid_isWord : Solid isWord := by
  rintro c (blank | rfl)
  · exact (classes_of_isBlank blank).1
  · rfl

theorem solid_isDigit : Solid isDigit := by
  rintro c (blank | rfl)
  · exact (classes_of_isBlank blank).2
  · rfl

theorem solid_isContentChar : Solid isContentChar := solid_isWord.or (by decide) (by decide)

theorem solid_isNameChar : Solid isNameChar := solid_isWord.or (by decide) (by decide)

theorem solid_isKindChar : Solid isKindChar :=
  (solid_isWord.or (by decide) (by decide)).or (by decide) (by decide)

theorem solid_isTypeChar : Solid isTypeChar :=
  (((solid_isWord.or (by decide) (by decide)).or (by decide) (by decide)).or (by decide)
    (by decide)).or (by decide) (by decide)

theorem solid_isRouteChar : Solid isRouteChar :=
  (((solid_isWord.or (by decide) (by decide)).or (by decide) (by decide)).or (by decide)
    (by decide)).or (by decide) (by decide)

/-! ## Parts of statements -/

/-- One or more characters of a class. -/
structure Token (member : Char → Bool) where
  chars : List Char
  present : chars ≠ []
  inClass : chars.all member = true

/-- Text in one line, in which no other statement begins. -/
structure FreeText where
  chars : List Char
  present : chars ≠ []
  noFeed : '\n' ∉ chars
  noSign : '@' ∉ chars

/-- Free text without blanks at its ends. -/
structure TrimmedText extends FreeText where
  trimmed : trim chars = chars

/-- A word for a location. -/
structure LocationWord where
  word : String
  location : Location
  known : Location.read? word = some location

/-- A parameter as it is stated. -/
structure ParameterText where
  name : Token isNameChar
  place : LocationWord
  type : Token isTypeChar
  required : Token isWord
  description : FreeText

/-- A response as it is stated. -/
structure ResponseText where
  success : Bool
  code : Nat
  code_lt : code < 65536
  kind : Token isKindChar
  type : Token isTypeChar
  description : FreeText

/-- A route as it is stated. -/
structure RouteText where
  path : Token isRouteChar
  method : Token isWord

/-- One statement. -/
inductive Statement where
  | title (text : TrimmedText)
  | description (text : TrimmedText)
  | accept (name : Token isContentChar)
  | parameter (p : ParameterText)
  | response (r : ResponseText)
  | route (r : RouteText)

/-! ## Written statements -/

/-- A text in quotes, in which quotes stand for themselves. -/
def inQuotes (text : List Char) : List Char := '"' :: (text ++ ['"'])

/-- A text in brackets. -/
def inBrackets (text : List Char) : List Char := '[' :: (text ++ [']'])

/-- The word for the outcome of a response. -/
def outcomeWord (success : Bool) : List Char :=
  if success then "Success".toList else "Failure".toList

namespace Statement

/-- The word of a statement. -/
def word : Statement → List Char
  | .title _ => "Title".toList
  | .description _ => "Description".toList
  | .accept _ => "Accept".toList
  | .parameter _ => "Param".toList
  | .response r => outcomeWord r.success
  | .route _ => "Router".toList

/-- The values after the word. -/
def values : Statement → List (List Char)
  | .title text | .description text => [text.chars]
  | .accept name => [name.chars]
  | .parameter p =>
    [p.name.chars, p.place.word.toList, p.type.chars, p.required.chars,
      inQuotes p.description.chars]
  | .response r =>
    [(toString r.code).toList, r.kind.chars, r.type.chars, inQuotes r.description.chars]
  | .route r => [r.path.chars, inBrackets r.method.chars]

/-- The fields of the line of a statement. -/
def fields (a : Statement) : List (List Char) := ('@' :: a.word) :: a.values

end Statement

/-- One or more blanks within a line, such as spaces and tabs. -/
structure IsGap (gap : List Char) : Prop where
  present : gap ≠ []
  blank : ∀ c ∈ gap, isBlank c = true
  noFeed : '\n' ∉ gap

/-- The line consists of the fields with gaps between them. -/
inductive Spaced : List (List Char) → List Char → Prop
  | last (field : List Char) : Spaced [field] field
  | cons {field gap line : List Char} {fields : List (List Char)} :
    IsGap gap → Spaced fields line → Spaced (field :: fields) (field ++ (gap ++ line))

/-! ## What statements say -/

/-- The parameter that is stated. -/
def ParameterText.parameter (unit : ImportPath) (p : ParameterText) : Parameter where
  name := .ofList p.name.chars
  location := p.place.location
  required := p.required.chars.map Char.toLower == "true".toList
  description := .ofList p.description.chars
  member := memberOf unit (.ofList p.name.chars) (fieldText p.type.chars)

/-- The response that is stated. Its member is that of the type, in a collection for arrays. -/
def ResponseText.response (unit : ImportPath) (r : ResponseText) : Response :=
  let info : MemberInfo := { name := "response " ++ toString r.code, origin := unit }
  { success := r.success
    code := r.code
    description := .ofList r.description.chars
    member :=
      if r.kind.chars = "\x7barray\x7d".toList then
        .collection info (.ofTypeText (fieldText r.type.chars) info.nested)
      else .ofTypeText (fieldText r.type.chars) info }

/-- What the line of a statement says. -/
def Statement.line (unit : ImportPath) : Statement → Line
  | .title text => .title (.ofList text.chars)
  | .description text => .description (.ofList text.chars)
  | .accept name => .accept (.ofList name.chars)
  | .parameter p => .parameter (p.parameter unit)
  | .response r => .response (r.response unit)
  | .route r => .route (.ofList r.path.chars) (.ofList r.method.chars)

/-! ## Beginnings and ends -/

/-- The text begins with a character that is no blank. -/
def Begins (text : List Char) : Prop := ∃ c ∈ text.head?, isBlank c = false

/-- The text ends with a character that is no blank. -/
def Closes (text : List Char) : Prop := ∃ c ∈ text.getLast?, isBlank c = false

section Tokens

variable {member : Char → Bool}

theorem Token.all (token : Token member) : ∀ c ∈ token.chars, member c = true :=
  List.all_eq_true.mp token.inClass

/-- A value of a solid class begins a field, as it does not begin with a blank. -/
theorem Token.begins (token : Token member) (solid : Solid member) : Begins token.chars := by
  obtain ⟨c, rest, chars⟩ := List.exists_cons_of_ne_nil token.present
  refine ⟨c, by rw [chars]; rfl, solid.isBlank_eq_false (token.all c ?_)⟩
  rw [chars]
  exact List.mem_cons_self

/-- A value of a solid class closes a field, as it does not end with a blank. -/
theorem Token.closes (token : Token member) (solid : Solid member) : Closes token.chars :=
  ⟨_, List.getLast?_eq_some_getLast token.present,
    solid.isBlank_eq_false (token.all _ (List.getLast_mem token.present))⟩

theorem Token.not_mem (token : Token member) {c : Char} (outside : member c = false) :
    c ∉ token.chars := by
  intro among
  rw [token.all c among] at outside
  cases outside

/-- The digits of a status code. -/
def ResponseText.codeToken (r : ResponseText) : Token isDigit where
  chars := (toString r.code).toList
  present := by
    rw [Nat.toString_eq_repr, Nat.toList_repr]
    exact Nat.toDigits_ne_nil
  inClass := List.all_eq_true.mpr fun c among => by
    rw [Nat.toString_eq_repr, Nat.toList_repr] at among
    have digit := isDigit_of_mem_digits among
    have small : c.toNat < 0x80 := by
      rw [Char.isDigit, Bool.and_eq_true, decide_eq_true_eq, decide_eq_true_eq] at digit
      exact Nat.lt_of_le_of_lt (UInt32.le_iff_toNat_le.mp digit.2) (by decide)
    rw [isDigit, if_pos small, digit]

/-- The words for a location are few, so that nothing else can be read as one. -/
theorem Location.mem_of_read? {word : String} {location : Location}
    (known : Location.read? word = some location) :
    word ∈ ["path", "query", "header", "body", "formData", "form"] := by
  rw [Location.read?.eq_def] at known
  split at known <;> first | decide | cases known

/-- The word of a location. -/
def LocationWord.token (place : LocationWord) : Token isWord :=
  have words : ∀ word ∈ ["path", "query", "header", "body", "formData", "form"],
      word.toList ≠ [] ∧ word.toList.all isWord = true := by decide
  have among := Location.mem_of_read? place.known
  { chars := place.word.toList
    present := (words _ among).1
    inClass := (words _ among).2 }

end Tokens

section Texts

/-- A text in quotes stays on its line. -/
theorem FreeText.all_inLine (text : FreeText) : ∀ c ∈ text.chars, isInLine c = true := by
  intro c among
  rw [isInLine, bne_iff_ne]
  exact fun same => text.noFeed (same ▸ among)

variable (text : TrimmedText)

theorem TrimmedText.begins : Begins text.chars := by
  obtain ⟨c, rest, chars⟩ := List.exists_cons_of_ne_nil text.present
  refine ⟨c, by rw [chars]; rfl, ?_⟩
  cases blank : isBlank c with
  | false => rfl
  | true =>
      have shorter : (trim (c :: rest)).length ≤ rest.length := by
        rw [trim, trimStart, List.dropWhile_cons_of_pos blank]
        exact length_trim_le rest
      rw [← chars, text.trimmed, chars, List.length_cons] at shorter
      omega

theorem TrimmedText.closes : Closes text.chars := by
  refine ⟨_, List.getLast?_eq_some_getLast text.present, ?_⟩
  cases blank : isBlank (text.chars.getLast text.present) with
  | false => rfl
  | true =>
      have cut : trimEnd text.chars = trimEnd text.chars.dropLast := by
        rw [trimEnd, trimEnd, ← dropTail_concat text.chars.dropLast blank,
          List.dropLast_concat_getLast]
      have shorter : (trim text.chars).length ≤ text.chars.dropLast.length := by
        rw [← trim_trimEnd, cut, trim_trimEnd]
        exact length_trim_le _
      have longer := List.length_pos_iff.mpr text.present
      rw [text.trimmed, List.length_dropLast] at shorter
      omega

end Texts

/-! ## Spaced fields -/

namespace Spaced

variable {field next line : List Char} {fields : List (List Char)}

/-- Between two fields there is a gap of blanks that does not end the line. -/
theorem exists_gap (spaced : Spaced (field :: next :: fields) line) :
    ∃ gap rest, IsGap gap ∧ Spaced (next :: fields) rest ∧ line = field ++ (gap ++ rest) := by
  cases spaced with
  | cons isGap later => exact ⟨_, _, isGap, later, rfl⟩

/-- The last field of a line is all that is left of it. -/
theorem eq_of_single (spaced : Spaced [field] line) : line = field := by
  cases spaced with
  | last => rfl
  | cons _ later => cases later

theorem exists_append (spaced : Spaced (field :: fields) line) : ∃ more, line = field ++ more := by
  cases spaced with
  | last => exact ⟨[], (List.append_nil field).symm⟩
  | cons _ _ => exact ⟨_, rfl⟩

/-- The first character of a field may be taken off. -/
theorem exists_tail {c : Char} (spaced : Spaced ((c :: field) :: fields) line) :
    ∃ tail, line = c :: tail ∧ Spaced (field :: fields) tail := by
  cases spaced with
  | last => exact ⟨_, rfl, .last _⟩
  | cons isGap later => exact ⟨_, rfl, .cons isGap later⟩

/-- Each character of a spaced line belongs to a field or is a blank inside of the line. -/
theorem mem_cases (spaced : Spaced fields line) {c : Char} (among : c ∈ line) :
    (∃ field ∈ fields, c ∈ field) ∨ (isBlank c = true ∧ c ≠ '\n') := by
  induction spaced with
  | last field => exact .inl ⟨field, List.mem_cons_self, among⟩
  | cons isGap _ ih =>
      rcases List.mem_append.mp among with inField | among
      · exact .inl ⟨_, List.mem_cons_self, inField⟩
      rcases List.mem_append.mp among with inGap | later
      · exact .inr ⟨isGap.blank c inGap, fun same => isGap.noFeed (same ▸ inGap)⟩
      · rcases ih later with ⟨field, listed, inField⟩ | gap
        · exact .inl ⟨field, List.mem_cons_of_mem _ listed, inField⟩
        · exact .inr gap

/-- The line ends as its last field does. -/
theorem closes (spaced : Spaced fields line) (last : ∀ field ∈ fields.getLast?, Closes field) :
    Closes line := by
  induction spaced with
  | last field => exact last field rfl
  | @cons field gap line fields _ later ih =>
      have ends : Closes line := by
        refine ih fun other isLast => last other ?_
        cases later <;> exact isLast
      obtain ⟨c, isLast, solid⟩ := ends
      refine ⟨c, ?_, solid⟩
      rw [List.getLast?_append, List.getLast?_append, isLast]
      rfl

/-- After a run of blanks a field stands, which stops it. -/
theorem stops (spaced : Spaced (field :: fields) line) (begins : Begins field) :
    Stops isBlank line := by
  obtain ⟨more, rfl⟩ := spaced.exists_append
  obtain ⟨c, first, solid⟩ := begins
  exact .append first solid more

/-! ### Fits of the fields one by one -/

variable {pieces : Pattern} {captured : List (List Char)} {member : Char → Bool}

/-- Where a field is followed by a gap, a run of blanks takes the gap and nothing of the next
field. -/
theorem fits_gap (spaced : Spaced (field :: next :: fields) line) (begins : Begins next)
    (later : ∀ {rest}, Spaced (next :: fields) rest → Fits pieces rest captured) :
    ∃ rest, line = field ++ rest ∧ Stops (fun c => !isBlank c) rest ∧
      Fits (.run isBlank :: pieces) rest captured := by
  obtain ⟨gap, rest, isGap, spaced', rfl⟩ := spaced.exists_gap
  refine ⟨gap ++ rest, rfl, ?_, .run isGap.present isGap.blank (spaced'.stops begins)
    (later spaced')⟩
  obtain ⟨c, gap', rfl⟩ := List.exists_cons_of_ne_nil isGap.present
  refine .cons ?_ _
  rw [isGap.blank c List.mem_cons_self]
  rfl

/-- A word of a pattern is the word of a line, with the gap after it. -/
theorem fits_word (spaced : Spaced (field :: next :: fields) line) (begins : Begins next)
    (later : ∀ {rest}, Spaced (next :: fields) rest → Fits pieces rest captured) :
    Fits (.exactly field :: .run isBlank :: pieces) line captured := by
  obtain ⟨rest, rfl, _, fits⟩ := spaced.fits_gap begins later
  exact .exactly field fits

/-- A capture takes the whole of a value and stops at the gap, since its class has no blanks. -/
theorem fits_token (token : Token member) (solid : Solid member)
    (spaced : Spaced (token.chars :: next :: fields) line) (begins : Begins next)
    (later : ∀ {rest}, Spaced (next :: fields) rest → Fits pieces rest captured) :
    Fits (.capture member :: .run isBlank :: pieces) line (token.chars :: captured) := by
  obtain ⟨rest, rfl, stops, fits⟩ := spaced.fits_gap begins later
  refine .capture token.present token.all (fun c first => ?_) fits
  have blank := stops c first
  rw [Bool.not_eq_false'] at blank
  exact solid.blank blank

/-- At the end of a line a text in quotes is captured without them. -/
theorem fits_quoted (text : FreeText) (spaced : Spaced [inQuotes text.chars] line) :
    Fits [.exactly ['"'], .capture isInLine, .exactly ['"']] line [text.chars] := by
  rw [spaced.eq_of_single]
  exact .exactly ['"'] (.capture_until_last text.present text.all_inLine rfl)

/-- At the end of a line a word in brackets is captured without them. -/
theorem fits_bracketed (token : Token isWord) (spaced : Spaced [inBrackets token.chars] line) :
    Fits [.exactly ['['], .capture isWord, .exactly [']']] line [token.chars] := by
  rw [spaced.eq_of_single]
  exact .exactly ['['] (.capture token.present token.all (.cons rfl _) (.exactly [']'] (.nil [])))

end Spaced

/-! ## Lines of statements -/

theorem begins_inQuotes (text : List Char) : Begins (inQuotes text) := ⟨'"', rfl, by decide⟩

theorem closes_inQuotes (text : List Char) : Closes (inQuotes text) :=
  ⟨'"', by rw [inQuotes, List.getLast?_cons, List.getLast?_concat]; rfl, by decide⟩

theorem begins_inBrackets (text : List Char) : Begins (inBrackets text) := ⟨'[', rfl, by decide⟩

theorem closes_inBrackets (text : List Char) : Closes (inBrackets text) :=
  ⟨']', by rw [inBrackets, List.getLast?_cons, List.getLast?_concat]; rfl, by decide⟩

section Marks

variable {c : Char} (mark : c = '@' ∨ c = '\n')

include mark

/-- The sign is not in the values of solid classes. -/
theorem Solid.not_mem {member : Char → Bool} (solid : Solid member) (token : Token member) :
    c ∉ token.chars := by
  refine token.not_mem (solid c ?_)
  rcases mark with rfl | rfl
  · exact .inr rfl
  · exact .inl (by decide)

theorem FreeText.not_mem (text : FreeText) : c ∉ text.chars := by
  rcases mark with rfl | rfl
  · exact text.noSign
  · exact text.noFeed

theorem FreeText.not_mem_inQuotes (text : FreeText) : c ∉ inQuotes text.chars := by
  have other : c ≠ '"' := by rcases mark with rfl | rfl <;> decide
  simp [inQuotes, other, text.not_mem mark]

theorem Token.not_mem_inBrackets (token : Token isWord) : c ∉ inBrackets token.chars := by
  have others : c ≠ '[' ∧ c ≠ ']' := by rcases mark with rfl | rfl <;> decide
  simp [inBrackets, others.1, others.2, solid_isWord.not_mem mark token]

theorem Statement.not_mem_word (a : Statement) : c ∉ a.word := by
  have words : ∀ word ∈ ["Title", "Description", "Accept", "Param", "Success", "Failure", "Router"],
      c ∉ word.toList := by
    rcases mark with rfl | rfl <;> decide
  cases a with
  | title text => exact words "Title" (by decide)
  | description text => exact words "Description" (by decide)
  | accept name => exact words "Accept" (by decide)
  | parameter p => exact words "Param" (by decide)
  | response r =>
      change c ∉ outcomeWord r.success
      cases r.success with
      | true => exact words "Success" (by decide)
      | false => exact words "Failure" (by decide)
  | route r => exact words "Router" (by decide)

/-- Signs and line feeds stand in no value. -/
theorem Statement.not_mem_of_mem_values (a : Statement) : ∀ value ∈ a.values, c ∉ value := by
  cases a with
  | title text => exact List.forall_mem_singleton.mpr (text.not_mem mark)
  | description text => exact List.forall_mem_singleton.mpr (text.not_mem mark)
  | accept name => exact List.forall_mem_singleton.mpr (solid_isContentChar.not_mem mark name)
  | parameter p =>
      simp only [values, List.forall_mem_cons]
      exact ⟨solid_isNameChar.not_mem mark p.name, solid_isWord.not_mem mark p.place.token,
        solid_isTypeChar.not_mem mark p.type, solid_isWord.not_mem mark p.required,
        p.description.not_mem_inQuotes mark, List.forall_mem_nil _⟩
  | response r =>
      simp only [values, List.forall_mem_cons]
      exact ⟨solid_isDigit.not_mem mark r.codeToken, solid_isKindChar.not_mem mark r.kind,
        solid_isTypeChar.not_mem mark r.type, r.description.not_mem_inQuotes mark,
        List.forall_mem_nil _⟩
  | route r =>
      simp only [values, List.forall_mem_cons]
      exact ⟨solid_isRouteChar.not_mem mark r.path, r.method.not_mem_inBrackets mark,
        List.forall_mem_nil _⟩

end Marks

namespace Statement

variable {a : Statement} {line : List Char}

/-- The only sign in the line of a statement stands at its start. -/
theorem exists_tail (spaced : Spaced a.fields line) :
    ∃ tail, line = '@' :: tail ∧ '@' ∉ tail ∧ Spaced (a.word :: a.values) tail := by
  obtain ⟨tail, rfl, later⟩ := Spaced.exists_tail spaced
  refine ⟨tail, rfl, fun among => ?_, later⟩
  rcases later.mem_cases among with ⟨field, listed, inField⟩ | ⟨blank, _⟩
  · rcases List.mem_cons.mp listed with rfl | inValues
    · exact a.not_mem_word (.inl rfl) inField
    · exact a.not_mem_of_mem_values (.inl rfl) field inValues inField
  · exact absurd blank (by decide)

/-- The last field of a statement does not end with a blank, so nothing of it is trimmed. -/
theorem closes_of_mem_getLast? : ∀ field ∈ a.fields.getLast?, Closes field := by
  intro field isLast
  cases a <;>
    simp only [fields, values, List.getLast?_cons_cons, List.getLast?_singleton, Option.mem_def,
      Option.some.injEq] at isLast <;>
    subst isLast
  case title text => exact text.closes
  case description text => exact text.closes
  case accept name => exact name.closes solid_isContentChar
  case parameter p => exact closes_inQuotes _
  case response r => exact closes_inQuotes _
  case route r => exact closes_inBrackets _

/-- The line of a statement is one line. -/
theorem whole_of_spaced (spaced : Spaced a.fields line) :
    '\n' ∉ line ∧ line ≠ [] ∧ line.getLast? ≠ some '\r' := by
  have ends := spaced.closes closes_of_mem_getLast?
  obtain ⟨tail, rfl, _, later⟩ := exists_tail spaced
  refine ⟨fun among => ?_, List.cons_ne_nil _ _, fun isReturn => ?_⟩
  · rcases List.mem_cons.mp among with same | inTail
    · cases same
    rcases later.mem_cases inTail with ⟨field, listed, inField⟩ | ⟨_, other⟩
    · rcases List.mem_cons.mp listed with rfl | inValues
      · exact a.not_mem_word (.inr rfl) inField
      · exact a.not_mem_of_mem_values (.inr rfl) field inValues inField
    · exact other rfl
  · obtain ⟨c, isLast, solid⟩ := ends
    rw [isReturn] at isLast
    cases isLast
    exact absurd solid (by decide)

end Statement

end ApiDocs.Directive
