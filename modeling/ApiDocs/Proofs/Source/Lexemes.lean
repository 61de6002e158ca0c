import ApiDocs.Proofs.Directive.TypeName
import ApiDocs.Source.Lexer

/-!
# Lexemes of types

Text made of names and the punctuation of types has no comments, literals, lifetimes or groups, so
each of its tokens is a name or one character. A `Spelling` is a token with its characters, and
`tokens?_of_lexed` says that text spelled piece by piece has the tokens of its spellings.
-/

namespace ApiDocs.Source

open Text

/-! ## Characters -/

/-- Characters of identifiers and of the punctuation in types. -/
def IsTypeChar (c : Char) : Prop := isIdentContinue c = true ∨ c ∈ [':', '<', '>']

theorem IsTypeChar.ne {c d : Char} (ofType : IsTypeChar c) (other : ¬ IsTypeChar d) : c ≠ d :=
  fun same => other (same ▸ ofType)

instance (c : Char) : Decidable (IsTypeChar c) :=
  inferInstanceAs (Decidable (isIdentContinue c = true ∨ c ∈ [':', '<', '>']))

/-- No comment begins but with a slash. -/
theorem comment?_eq_none {c : Char} (other : c ≠ '/') (rest : List Char) :
    comment? (c :: rest) = none := by
  unfold comment?
  split <;> simp_all

theorem startsWithPunct_cons {c : Char} (other : c ≠ '/') (rest : List Char) :
    startsWithPunct (c :: rest) = isPunct c := by
  unfold startsWithPunct
  split <;> simp_all

theorem isPunct_of_isIdentContinue {c : Char} (continues : isIdentContinue c = true) :
    isPunct c = false := by
  have none : ("~!@#$%^&*-=+|;:,<.>/?'".toList.all fun mark => !isIdentContinue mark) = true := by
    decide
  cases found : isPunct c with
  | false => rfl
  | true =>
      have other := List.all_eq_true.mp none c (List.contains_iff_mem.mp found)
      rw [continues] at other
      cases other

/-! ## Literals -/

/-- Literals with a raw text have a quote somewhere. -/
theorem raw?_eq_none {text : List Char} (unquoted : '"' ∉ text) (kind : QuotedKind) :
    raw? kind text = none := by
  unfold raw?
  dsimp only
  split
  · rename_i rest cut
    have among := List.mem_of_mem_drop (cut ▸ List.mem_cons_self : '"' ∈ text.drop _)
    exact absurd among unquoted
  · rfl

theorem textLiteral?_eq_none {text : List Char} (unquoted : '"' ∉ text) :
    textLiteral? text = none := by
  unfold textLiteral?
  dsimp only
  split
  all_goals simp_all [raw?_eq_none]

theorem characterLiteral?_eq_none {text : List Char} (unquoted : '\x27' ∉ text) :
    characterLiteral? text = none := by
  unfold characterLiteral?
  split
  all_goals simp_all

/-- Only letters have hexadecimal values that are no decimal digits. -/
theorem ten_le_of_hexValue? {c : Char} (other : c.isDigit = false) {digit : Nat}
    (given : hexValue? c = some digit) : 10 ≤ digit := by
  rw [hexValue?, if_neg (by simp [other])] at given
  split at given
  · cases given
    exact Nat.le_add_left _ _
  · split at given
    · cases given
      exact Nat.le_add_left _ _
    · cases given

theorem basedLength?_eq_none {c : Char} (other : c.isDigit = false) (rest : List Char) :
    basedLength? 10 false (c :: rest) = none := by
  rw [basedLength?]
  split
  · rfl
  · split
    · rename_i digit given
      -- a letter is a digit in larger bases only
      have large := ten_le_of_hexValue? other given
      rw [if_neg (by omega), if_neg (by simp [other])]
      rfl
    · rfl

/-- No number begins but with a digit. -/
theorem numberLiteral?_eq_none {c : Char} (other : c.isDigit = false) (rest : List Char) :
    numberLiteral? (c :: rest) = none := by
  have noFloat : floatDigits? (c :: rest) = none := by simp [floatDigits?, other]
  have noInteger : integerDigits? (c :: rest) = none := by
    have decimal : baseOf (c :: rest) = (10, 0) := by
      unfold baseOf
      split
      all_goals simp_all
    rw [integerDigits?, decimal]
    dsimp only
    rw [List.drop_zero, basedLength?_eq_none other]
    rfl
  simp [numberLiteral?, numberLength?, noFloat, noInteger]

/-- There is no literal without quotes and digits. -/
theorem literal?_eq_none {c : Char} {rest : List Char} (other : c.isDigit = false)
    (unquoted : '"' ∉ c :: rest) (unticked : '\x27' ∉ c :: rest) : literal? (c :: rest) = none := by
  rw [literal?, textLiteral?_eq_none unquoted, characterLiteral?_eq_none unticked,
    numberLiteral?_eq_none other]
  rfl

/-- Each of the reserved beginnings has a quote, a tick or a hash in it. -/
theorem reservedStarts_of_not_mem {text : List Char} (unquoted : '"' ∉ text)
    (unticked : '\x27' ∉ text) (unhashed : '#' ∉ text) :
    (reservedStarts.any fun start => (after? start text).isSome) = false := by
  have marked : ∀ start ∈ reservedStarts, '"' ∈ start ∨ '\x27' ∈ start ∨ '#' ∈ start := by decide
  rw [List.any_eq_false]
  intro start listed found
  obtain ⟨rest, same⟩ := Option.isSome_iff_exists.mp found
  have begins := TypeText.eq_append_of_after? same
  have within : ∀ d ∈ start, d ∈ text := fun d among => begins ▸ List.mem_append_left _ among
  rcases marked start listed with quote | tick | hash
  · exact unquoted (within _ quote)
  · exact unticked (within _ tick)
  · exact unhashed (within _ hash)

/-! ## Leaves -/

/-- Text of types: no quotes, ticks or hashes. -/
def IsTypeText (text : List Char) : Prop := ∀ c ∈ text, IsTypeChar c

theorem IsTypeText.not_mem {text : List Char} (ofType : IsTypeText text) {c : Char}
    (other : ¬ IsTypeChar c) : c ∉ text := fun among => other (ofType c among)

theorem IsTypeChar.not_blank {c : Char} (ofType : IsTypeChar c) : isSourceBlank c = false := by
  have blank : isBlank c = false := by
    rcases ofType with continues | punct
    · exact isBlank_of_isIdentContinue continues
    · have none : ([':', '<', '>'].all fun mark => !isBlank mark) = true := by decide
      simpa using List.all_eq_true.mp none c punct
  have left : c ≠ '\u200e' := ofType.ne (by decide +kernel)
  have right : c ≠ '\u200f' := ofType.ne (by decide +kernel)
  simp [isSourceBlank, blank, left, right]

/-- Neither blanks nor comments nor groups begin with such a character. -/
theorem step?_eq_leaf {c : Char} {rest : List Char} (ofType : IsTypeChar c) :
    step? (c :: rest) = (leaf? (c :: rest)).map fun leaf =>
      (fun stop => [.leaf (leaf.1 stop)], leaf.2) := by
  have noError : after? errorSpelling.toList (c :: rest) = none := by
    have opens : '(' ≠ c := (ofType.ne (by decide)).symm
    exact if_neg opens
  have noOpening : opening? c = none := by
    unfold opening?
    split
    · exact absurd ofType (by decide)
    · exact absurd ofType (by decide)
    · exact absurd ofType (by decide)
    · rfl
  have noClosing : closing? c = none := by
    unfold closing?
    split
    · exact absurd ofType (by decide)
    · exact absurd ofType (by decide)
    · exact absurd ofType (by decide)
    · rfl
  rw [step?, ofType.not_blank, comment?_eq_none (ofType.ne (by decide)), noError, noOpening,
    noClosing]
  rfl

section Leaves

variable {c : Char} {rest : List Char}

/-- A text that does not begin with a tick or a literal is cut at a sign or at the end of a word. -/
theorem leaf?_cons (noTick : c ≠ '\x27') (noLiteral : literal? (c :: rest) = none) :
    leaf? (c :: rest) =
      if startsWithPunct (c :: rest) then some (.punct c (startsWithPunct rest), 1)
      else if reservedStarts.any fun start => (after? start (c :: rest)).isSome then none
      else (identifier? (c :: rest)).map fun found => (.ident found.1.1 found.1.2, found.2) := by
  unfold leaf?
  rw [noLiteral]
  dsimp only
  split
  · rename_i tick
    cases tick
    exact absurd rfl noTick
  · rename_i same
    cases same
    rfl
  · rename_i same
    cases same

/-- A sign is a token of its own, and is joint if another sign follows. -/
theorem leaf?_punct (punct : c ∈ [':', '<', '>']) (ofType : IsTypeText (c :: rest)) :
    leaf? (c :: rest) = some (.punct c (startsWithPunct rest), 1) := by
  have marks : ([':', '<', '>'].all fun mark => !mark.isDigit && isPunct mark) = true := by decide
  obtain ⟨other, isMark⟩ : c.isDigit = false ∧ isPunct c = true := by
    simpa using List.all_eq_true.mp marks c punct
  have here := ofType c List.mem_cons_self
  have noLiteral : literal? (c :: rest) = none :=
    literal?_eq_none other (ofType.not_mem (by decide)) (ofType.not_mem (by decide))
  have starts : startsWithPunct (c :: rest) = true :=
    (startsWithPunct_cons (here.ne (by decide)) rest).trans isMark
  rw [leaf?_cons (here.ne (by decide)) noLiteral, if_pos starts]

theorem not_isDigit_of_isIdentStart (starts : isIdentStart c = true) : c.isDigit = false := by
  rw [Bool.eq_false_iff]
  intro digit
  have bounds : 48 ≤ c.toNat ∧ c.toNat ≤ 57 := by
    rw [Char.isDigit, Bool.and_eq_true, decide_eq_true_eq, decide_eq_true_eq] at digit
    exact digit
  rw [isIdentStart, if_pos (by omega)] at starts
  have letters : ∀ n < 58, 48 ≤ n → ((Char.ofNat n).isAlpha || Char.ofNat n == '_') = false := by
    decide +kernel
  have other := letters c.toNat (by omega) bounds.1
  rw [Char.ofNat_toNat, starts] at other
  cases other

/-- A word goes as far as its characters do. -/
theorem wordLength?_name {name : String} (isName : IsName name)
    (ends : ∀ c ∈ rest.head?, isIdentContinue c = false) :
    wordLength? (name.toList ++ rest) = some name.toList.length := by
  obtain ⟨c, others, chars, starts, continues⟩ := chars_of_wordLength? isName.1
  have taken : (others ++ rest).takeWhile isIdentContinue = others := by
    rw [List.takeWhile_append_of_pos continues]
    cases rest with
    | nil => exact List.append_nil _
    | cons d rest =>
        rw [List.takeWhile_cons_of_neg (by simp [ends d rfl]), List.append_nil]
  rw [chars, List.cons_append, wordLength?, if_pos starts, taken, List.length_cons, Nat.add_comm]

/-- A name is read as an identifier up to a character that cannot go on with it. -/
theorem identifier?_name {name : String} (isName : IsName name)
    (unhashed : '#' ∉ name.toList ++ rest)
    (ends : ∀ c ∈ rest.head?, isIdentContinue c = false) :
    identifier? (name.toList ++ rest) = some ((name, false), name.toList.length) := by
  have whole : String.ofList ((name.toList ++ rest).take name.toList.length) = name := by
    rw [List.take_left, String.ofList_toList]
  unfold identifier?
  split
  · rename_i more raw
    exact absurd (raw ▸ List.mem_cons_of_mem _ List.mem_cons_self) unhashed
  · rw [wordLength?_name isName ends]
    change some ((String.ofList _, false), _) = _
    rw [whole]

/-- Among the characters of types, a name is one token. -/
theorem leaf?_name {name : String} (isName : IsName name)
    (ofType : IsTypeText (name.toList ++ rest))
    (ends : ∀ c ∈ rest.head?, isIdentContinue c = false) :
    leaf? (name.toList ++ rest) = some (.ident name false, name.toList.length) := by
  have reserved := reservedStarts_of_not_mem (ofType.not_mem (by decide))
    (ofType.not_mem (by decide)) (ofType.not_mem (by decide))
  have word := identifier?_name isName (ofType.not_mem (by decide)) ends
  obtain ⟨c, others, chars, starts, continues⟩ := chars_of_wordLength? isName.1
  have begins : name.toList ++ rest = c :: (others ++ rest) := by rw [chars, List.cons_append]
  rw [begins] at ofType reserved word ⊢
  have here := ofType c List.mem_cons_self
  have noLiteral : literal? (c :: (others ++ rest)) = none :=
    literal?_eq_none (not_isDigit_of_isIdentStart starts) (ofType.not_mem (by decide))
      (ofType.not_mem (by decide))
  have noPunct : startsWithPunct (c :: (others ++ rest)) = false :=
    (startsWithPunct_cons (here.ne (by decide)) _).trans
      (isPunct_of_isIdentContinue (isIdentContinue_of_isIdentStart starts))
  rw [leaf?_cons (here.ne (by decide)) noLiteral, noPunct, reserved, word]
  rfl

end Leaves

/-! ## Spellings -/

/-- The characters of a token, and the token once it is known where it ends. -/
structure Spelling where
  chars : List Char
  token : Position → Token

namespace Spelling

/-- The spelling of a name. -/
def ofName (name : String) : Spelling := ⟨name.toList, .ident name false⟩

/-- The spelling of a punctuation character. -/
def ofPunct (c : Char) (joint : Bool) : Spelling := ⟨[c], .punct c joint⟩

/-- The text of spellings. -/
def text (spellings : List Spelling) : List Char := spellings.flatMap chars

/-- The tokens of spellings from a place on. -/
def place : Position → List Spelling → List Token
  | _, [] => []
  | p, spelling :: spellings =>
    spelling.token (p.afterAll spelling.chars) :: place (p.afterAll spelling.chars) spellings

/-- The tokens of a longer spelling are those of its parts, the later ones further on in the
text. -/
theorem exists_place_append (p : Position) (spellings more : List Spelling) :
    ∃ q, place p (spellings ++ more) = place p spellings ++ place q more := by
  induction spellings generalizing p with
  | nil => exact ⟨p, rfl⟩
  | cons spelling spellings ih =>
      obtain ⟨q, same⟩ := ih (p.afterAll spelling.chars)
      exact ⟨q, congrArg _ same⟩

theorem length_place (p : Position) (spellings : List Spelling) :
    (place p spellings).length = spellings.length := by
  induction spellings generalizing p with
  | nil => rfl
  | cons spelling spellings ih => exact congrArg Nat.succ (ih _)

/-- The lexer reads the spelling at the beginning of the text that it and `rest` make. -/
structure Leads (spelling : Spelling) (rest : List Char) : Prop where
  nonempty : spelling.chars ≠ []
  step : step? (spelling.chars ++ rest) =
    some (fun stop => [.leaf (spelling.token stop)], spelling.chars.length)

/-- A sign is cut off from whatever follows it. -/
theorem leads_ofPunct {c : Char} {rest : List Char} (punct : c ∈ [':', '<', '>'])
    (ofType : IsTypeText (c :: rest)) : (ofPunct c (startsWithPunct rest)).Leads rest where
  nonempty := List.cons_ne_nil _ _
  step := by
    change step? (c :: rest) = _
    rw [step?_eq_leaf (ofType c List.mem_cons_self), leaf?_punct punct ofType]
    rfl

/-- A name is cut off from what follows it, if that does not go on with the name. -/
theorem leads_ofName {name : String} {rest : List Char} (isName : IsName name)
    (ofType : IsTypeText (name.toList ++ rest))
    (ends : ∀ c ∈ rest.head?, isIdentContinue c = false) : (ofName name).Leads rest where
  nonempty := isName.ne_nil
  step := by
    have leaf := leaf?_name isName ofType ends
    obtain ⟨c, others, begins⟩ := List.exists_cons_of_ne_nil isName.ne_nil
    change step? (name.toList ++ rest) = _
    rw [begins, List.cons_append] at ofType leaf ⊢
    rw [step?_eq_leaf (ofType c List.mem_cons_self), leaf, ← begins]
    rfl

/-- The lexer reads the spellings one after the other, up to `rest`. -/
def Lexed : List Spelling → List Char → Prop
  | [], _ => True
  | spelling :: spellings, rest =>
    spelling.Leads (text spellings ++ rest) ∧ Lexed spellings rest

theorem text_cons (spelling : Spelling) (spellings : List Spelling) :
    text (spelling :: spellings) = spelling.chars ++ text spellings := List.flatMap_cons

theorem text_append (spellings more : List Spelling) :
    text (spellings ++ more) = text spellings ++ text more := List.flatMap_append

/-- Spellings one after the other are cut as they were spelled, if the first are cut off from the
second. -/
theorem Lexed.append {spellings more : List Spelling} {rest : List Char}
    (first : Lexed spellings (text more ++ rest)) (second : Lexed more rest) :
    Lexed (spellings ++ more) rest := by
  induction spellings with
  | nil => exact second
  | cons spelling spellings ih =>
      obtain ⟨leads, others⟩ := first
      have whole : spelling.Leads (text (spellings ++ more) ++ rest) := by
        rwa [text_append, List.append_assoc]
      exact ⟨whole, ih others⟩

/-- Skipped characters only move the position on. -/
theorem lexemesFrom?_skip (skipped rest : List Char) (p : Position) (found : List Lexeme) :
    lexemesFrom? skipped.length p found (skipped ++ rest) =
      lexemesFrom? 0 (p.afterAll skipped) found rest := by
  induction skipped generalizing p with
  | nil => rfl
  | cons c skipped ih => exact ih (p.after c)

/-- Each spelling that is cut off from the rest becomes one lexeme, placed where its text ends. -/
theorem lexemesFrom?_of_leads {spelling : Spelling} {rest : List Char}
    (leads : spelling.Leads rest) (p : Position) (found : List Lexeme) :
    lexemesFrom? 0 p found (spelling.chars ++ rest) =
      lexemesFrom? 0 (p.afterAll spelling.chars)
        (.leaf (spelling.token (p.afterAll spelling.chars)) :: found) rest := by
  obtain ⟨chars, token⟩ := spelling
  obtain ⟨nonempty, step⟩ := leads
  obtain ⟨c, others, rfl⟩ := List.exists_cons_of_ne_nil nonempty
  have onward := lexemesFrom?_skip others rest (p.after c)
    (.leaf (token (p.afterAll (c :: others))) :: found)
  rw [List.cons_append] at step ⊢
  rw [lexemesFrom?, step]
  dsimp only
  rw [← List.cons_append, List.take_left]
  exact onward

/-- A text of spellings is cut into their tokens, each at its place. -/
theorem lexemesFrom?_of_lexed {spellings : List Spelling} (lexed : Lexed spellings [])
    (p : Position) (found : List Lexeme) :
    lexemesFrom? 0 p found (text spellings) =
      some (found.reverse ++ (place p spellings).map .leaf) := by
  induction spellings generalizing p found with
  | nil => exact congrArg some (List.append_nil _).symm
  | cons spelling spellings ih =>
      obtain ⟨leads, others⟩ := lexed
      rw [List.append_nil] at leads
      change lexemesFrom? 0 p found (spelling.chars ++ text spellings) = _
      rw [lexemesFrom?_of_leads leads, ih others, List.reverse_cons, List.append_assoc]
      rfl

/-- Lexemes without brackets are the trees that they make up. -/
theorem treesFrom?_leaves (tokens read : List Token) :
    treesFrom? [] read (tokens.map .leaf) = some (read.reverse ++ tokens) := by
  induction tokens generalizing read with
  | nil => exact congrArg some (List.append_nil _).symm
  | cons token tokens ih =>
      change treesFrom? [] (token :: read) (tokens.map .leaf) = _
      rw [ih, List.reverse_cons, List.append_assoc]
      rfl

/-- Text that is read piece by piece has the tokens of its spellings. -/
theorem tokens?_of_lexed {spellings : List Spelling} (lexed : Lexed spellings [])
    (unmarked : byteOrderMark ∉ text spellings) :
    tokens? (text spellings) = some (place .start spellings) := by
  have lexemes := lexemesFrom?_of_lexed lexed .start []
  have trees := treesFrom?_leaves (place .start spellings) []
  cases spellings with
  | nil => rfl
  | cons spelling spellings =>
      have nonempty : text (spelling :: spellings) ≠ [] :=
        List.append_ne_nil_of_left_ne_nil lexed.1.nonempty _
      obtain ⟨c, others, begins⟩ := List.exists_cons_of_ne_nil nonempty
      have first : c ≠ byteOrderMark :=
        fun same => unmarked (begins ▸ same ▸ List.mem_cons_self)
      rw [begins] at lexemes ⊢
      rw [tokens?]
      dsimp only
      rw [if_neg first, lexemes?, lexemes]
      exact trees

end Spelling

end ApiDocs.Source
