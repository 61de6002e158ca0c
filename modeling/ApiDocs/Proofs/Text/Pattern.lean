import ApiDocs.Proofs.Text
import ApiDocs.Text.Pattern

/-!
# Fits of line patterns

A run takes as many characters as it can. Where the text after a field begins with a character
outside of the field's class, the first attempt is the right one, so the fit of a pattern is put
together from left to right (`Fits`). Only a text up to the end of the line has to give something
back, the character that closes it (`Fits.capture_until_last`). A pattern that begins with a sign
fits nowhere but at this sign (`captures_of_sign`).
-/

namespace ApiDocs.Text

/-! ## Classes -/

/-- The code points of the blanks. -/
def blankCodes : List Nat :=
  blankRanges.flatMap fun range => List.range' range.1 (range.2 + 1 - range.1)

theorem mem_blankCodes_of_isBlank {c : Char} (blank : isBlank c = true) : c.toNat ∈ blankCodes := by
  obtain ⟨range, listed, inside⟩ := List.any_eq_true.mp blank
  rw [Bool.and_eq_true, decide_eq_true_eq, decide_eq_true_eq] at inside
  refine List.mem_flatMap.mpr ⟨range, listed, List.mem_range'_1.mpr ⟨inside.1, ?_⟩⟩
  omega

set_option maxRecDepth 10000 in
theorem classes_of_mem_blankCodes : ∀ code ∈ blankCodes,
    isWord (Char.ofNat code) = false ∧ isDigit (Char.ofNat code) = false := by
  decide +kernel

/-- A blank is neither a word character nor a digit. -/
theorem classes_of_isBlank {c : Char} (blank : isBlank c = true) :
    isWord c = false ∧ isDigit c = false := by
  have classes := classes_of_mem_blankCodes _ (mem_blankCodes_of_isBlank blank)
  rwa [Char.ofNat_toNat] at classes

namespace Pattern

/-! ## Runs -/

/-- The text does not go on with a character of the class. -/
def Stops (member : Char → Bool) (rest : List Char) : Prop := ∀ c ∈ rest.head?, member c = false

section

variable {member : Char → Bool} {taken rest : List Char}

theorem Stops.nil : Stops member [] := nofun

theorem Stops.cons {c : Char} (outside : member c = false) (rest : List Char) :
    Stops member (c :: rest) := by
  rintro d same
  cases same
  exact outside

theorem Stops.append {c : Char} (first : taken.head? = some c) (outside : member c = false)
    (rest : List Char) : Stops member (taken ++ rest) := by
  cases taken with
  | nil => cases first
  | cons d taken =>
      cases first
      exact .cons outside _

/-- A run ends where the next character is outside of its class. -/
theorem takeWhile_append_of_stops (all : ∀ c ∈ taken, member c = true)
    (stops : Stops member rest) : (taken ++ rest).takeWhile member = taken := by
  rw [List.takeWhile_append_of_pos all]
  cases rest with
  | nil => rw [List.takeWhile_nil, List.append_nil]
  | cons c rest =>
      have outside : ¬ member c = true := by
        rw [stops c rfl]
        exact Bool.false_ne_true
      rw [List.takeWhile_cons_of_neg outside, List.append_nil]

/-- The longest attempt is taken if it succeeds. -/
theorem longestFirst_of_succeeds {α : Type} {attempt : Nat → Option α} {count : Nat} {result : α}
    (present : count ≠ 0) (succeeds : attempt count = some result) :
    longestFirst attempt count = some result := by
  cases count with
  | zero => exact absurd rfl present
  | succ count => rw [longestFirst, succeeds, Option.some_or]

end

/-! ## Fits -/

/-- The pattern fits at the start of the text, whatever stands before it. -/
def Fits (pattern : Pattern) (text : List Char) (captured : List (List Char)) : Prop :=
  ∀ before, fitHere pattern before text = some captured

namespace Fits

variable {pieces : Pattern} {taken rest : List Char} {captured : List (List Char)}
  {member : Char → Bool}

theorem nil (rest : List Char) : Fits [] rest [] := fun _ => rfl

theorem exactly (text : List Char) (fits : Fits pieces rest captured) :
    Fits (.exactly text :: pieces) (text ++ rest) captured := by
  intro before
  rw [fitHere, after?_append, Option.bind_some]
  exact fits _

/-- The first text that the rest begins with, if the later ones are of no use. -/
theorem oneOf {texts : List (List Char)} {text : List Char} (fits : Fits pieces rest captured)
    (chosen : ∃ before after, texts = before ++ text :: after ∧
      ∀ other ∈ before, after? other (text ++ rest) = none) :
    Fits (.oneOf texts :: pieces) (text ++ rest) (text :: captured) := by
  intro before
  obtain ⟨earlier, later, rfl, fail⟩ := chosen
  rw [fitHere, List.findSome?_append, List.findSome?_eq_none_iff.mpr, Option.none_or,
    List.findSome?_cons, after?_append, Option.bind_some, fits]
  · rfl
  · intro other among
    rw [fail other among]
    rfl

theorem run (present : taken ≠ []) (all : ∀ c ∈ taken, member c = true)
    (stops : Stops member rest) (fits : Fits pieces rest captured) :
    Fits (.run member :: pieces) (taken ++ rest) captured := by
  intro before
  rw [fitHere, takeWhile_append_of_stops all stops]
  refine longestFirst_of_succeeds (mt List.length_eq_zero_iff.mp present) ?_
  rw [List.drop_left]
  exact fits _

/-- A capture takes all characters up to the first one outside of its class. -/
theorem capture (present : taken ≠ []) (all : ∀ c ∈ taken, member c = true)
    (stops : Stops member rest) (fits : Fits pieces rest captured) :
    Fits (.capture member :: pieces) (taken ++ rest) (taken :: captured) := by
  intro before
  rw [fitHere, takeWhile_append_of_stops all stops]
  refine longestFirst_of_succeeds (mt List.length_eq_zero_iff.mp present) ?_
  rw [List.drop_left, List.take_left, fits]
  rfl

/-- A capture at the end takes all that is left. -/
theorem capture_all (present : taken ≠ []) (all : ∀ c ∈ taken, member c = true) :
    Fits [.capture member] taken [taken] := by
  have fits := capture present all .nil (nil [])
  rwa [List.append_nil] at fits

/-- A capture gives back the last character if the pattern ends with it. -/
theorem capture_until_last {c : Char} (present : taken ≠ []) (all : ∀ d ∈ taken, member d = true)
    (inClass : member c = true) :
    Fits [.capture member, .exactly [c]] (taken ++ [c]) [taken] := by
  intro before
  have whole : (taken ++ [c]).takeWhile member = taken ++ [c] := by
    rw [List.takeWhile_append_of_pos all, List.takeWhile_cons_of_pos inClass, List.takeWhile_nil]
  have tooMany : (taken ++ [c]).drop (taken.length + 1) = [] :=
    List.drop_eq_nil_of_le (by simp)
  rw [fitHere, whole, List.length_append, List.length_singleton, longestFirst, tooMany, fitHere,
    after?, Option.bind_none, Option.map_none, Option.none_or]
  refine longestFirst_of_succeeds (mt List.length_eq_zero_iff.mp present) ?_
  have closes : Fits [.exactly [c]] [c] [] := exactly [c] (nil [])
  rw [List.drop_left, List.take_left, closes]
  rfl

end Fits

/-! ## Places -/

section

variable {sign : Char} {word : List Char} {pieces : Pattern} {rest : List Char}

/-- A pattern that starts with a sign fits nowhere in a text without it. -/
theorem fitFrom_of_absent (absent : sign ∉ rest) (before : Option Char) :
    fitFrom (.exactly (sign :: word) :: pieces) before rest = none := by
  induction rest generalizing before with
  | nil => rfl
  | cons c rest ih =>
      have differs : ¬ sign = c := fun same => absent (same ▸ List.mem_cons_self)
      rw [fitFrom, fitHere, after?, if_neg differs,
        ih fun later => absent (List.mem_cons_of_mem _ later)]
      rfl

/-- If the sign stands at the start of the line only, the pattern is tried there and nowhere else.
-/
theorem captures_of_sign (absent : sign ∉ rest) :
    captures (.exactly (sign :: word) :: pieces) (sign :: rest) =
      fitHere (.exactly (sign :: word) :: pieces) none (sign :: rest) := by
  rw [captures, fitFrom, fitFrom_of_absent absent, Option.or_none]

/-- If the sign stands at the start only, a pattern captures what it captures there. -/
theorem captures_of_fits {captured : List (List Char)} (absent : sign ∉ rest)
    (fits : Fits (.exactly (sign :: word) :: pieces) (sign :: rest) captured) :
    captures (.exactly (sign :: word) :: pieces) (sign :: rest) = some captured := by
  rw [captures_of_sign absent, fits]

/-- A line that begins with another word does not fit. -/
theorem captures_of_other_word (absent : sign ∉ rest) (other : after? word rest = none) :
    captures (.exactly (sign :: word) :: pieces) (sign :: rest) = none := by
  rw [captures_of_sign absent, fitHere, after?, if_pos rfl, other]
  rfl

end

end Pattern

end ApiDocs.Text
