import ApiDocs.Text.Split

/-!
# Cutting text

What the functions that cut text do to texts put together of parts: splitting at a separator takes
joined texts apart again, and trimming stops at the first character that is no blank.
-/

namespace ApiDocs.Text

/-! ## Splitting -/

section

variable {separator : Char}

/-- A text is split at the first separator. -/
theorem splitOnce_append {before : List Char} (after : List Char) (absent : separator ∉ before) :
    splitOnce separator (before ++ separator :: after) = some (before, after) := by
  induction before with
  | nil => exact if_pos rfl
  | cons c before ih =>
      have differs : c ≠ separator := fun same => absent (same ▸ List.mem_cons_self)
      rw [List.cons_append, splitOnce, if_neg differs,
        ih fun later => absent (List.mem_cons_of_mem _ later)]
      rfl

theorem splitOnce_eq_none {text : List Char} (absent : separator ∉ text) :
    splitOnce separator text = none := by
  induction text with
  | nil => rfl
  | cons c text ih =>
      have differs : c ≠ separator := fun same => absent (same ▸ List.mem_cons_self)
      rw [splitOnce, if_neg differs, ih fun later => absent (List.mem_cons_of_mem _ later)]
      rfl

theorem splitAll_ne_nil (text : List Char) : splitAll separator text ≠ [] := by
  cases text with
  | nil => exact List.cons_ne_nil _ _
  | cons c text =>
      rw [splitAll]
      split
      · exact List.cons_ne_nil _ _
      · split <;> exact List.cons_ne_nil _ _

theorem splitAll_of_not_mem {text : List Char} (absent : separator ∉ text) :
    splitAll separator text = [text] := by
  induction text with
  | nil => rfl
  | cons c text ih =>
      have differs : c ≠ separator := fun same => absent (same ▸ List.mem_cons_self)
      rw [splitAll, if_neg differs, ih fun later => absent (List.mem_cons_of_mem _ later)]

/-- A separator between two texts ends the last part of the first. -/
theorem splitAll_append (text rest : List Char) :
    splitAll separator (text ++ separator :: rest) =
      splitAll separator text ++ splitAll separator rest := by
  induction text with
  | nil => exact if_pos rfl
  | cons c text ih =>
      rw [List.cons_append, splitAll, splitAll, ih]
      split
      · rfl
      · obtain ⟨part, parts, cut⟩ := List.exists_cons_of_ne_nil (splitAll_ne_nil text)
        rw [cut, List.cons_append]
        rfl

theorem intercalate_append {parts more : List (List Char)} (present : parts ≠ [])
    (further : more ≠ []) :
    [separator].intercalate (parts ++ more) =
      [separator].intercalate parts ++ separator :: [separator].intercalate more := by
  induction parts with
  | nil => exact absurd rfl present
  | cons part parts ih =>
      cases parts with
      | nil =>
          obtain ⟨next, others, rfl⟩ := List.exists_cons_of_ne_nil further
          simp [List.intercalate_cons_cons]
      | cons next parts =>
          rw [List.cons_append, List.cons_append, List.intercalate_cons_cons,
            List.intercalate_cons_cons, ← List.cons_append, ih (List.cons_ne_nil _ _)]
          simp

/-- Parts without separators that are joined by them are split into the same parts again. -/
theorem splitAll_intercalate {parts : List (List Char)} (present : parts ≠ [])
    (absent : ∀ part ∈ parts, separator ∉ part) :
    splitAll separator ([separator].intercalate parts) = parts := by
  induction parts with
  | nil => exact absurd rfl present
  | cons part parts ih =>
      have cut := splitAll_of_not_mem (absent part List.mem_cons_self)
      cases parts with
      | nil => rw [List.intercalate_singleton, cut]
      | cons next parts =>
          rw [List.intercalate_cons_cons, List.append_assoc, List.singleton_append, splitAll_append,
            cut, ih (List.cons_ne_nil _ _) fun other among =>
              absent other (List.mem_cons_of_mem _ among), List.singleton_append]

/-- No part has a separator, and nothing is added. -/
theorem of_mem_splitAll {text part : List Char}
    (among : part ∈ splitAll separator text) : separator ∉ part ∧ ∀ c ∈ part, c ∈ text := by
  induction text generalizing part with
  | nil =>
      rw [List.mem_singleton.mp among]
      exact ⟨List.not_mem_nil, nofun⟩
  | cons c text ih =>
      rw [splitAll] at among
      split at among
      · rcases List.mem_cons.mp among with rfl | later
        · exact ⟨List.not_mem_nil, nofun⟩
        · exact (ih later).imp_right fun within d inPart => List.mem_cons_of_mem _ (within d inPart)
      · rename_i differs
        have longer : ∀ {inner : List Char}, separator ∉ inner ∧ (∀ d ∈ inner, d ∈ text) →
            separator ∉ c :: inner ∧ ∀ d ∈ c :: inner, d ∈ c :: text := by
          rintro inner ⟨absent, within⟩
          refine ⟨?_, fun d inPart => ?_⟩
          · rw [List.mem_cons, not_or]
            exact ⟨Ne.symm differs, absent⟩
          · rcases List.mem_cons.mp inPart with rfl | later
            · exact List.mem_cons_self
            · exact List.mem_cons_of_mem _ (within d later)
        cases parts : splitAll separator text with
        | nil =>
            rw [parts] at among
            rw [List.mem_singleton.mp among]
            exact longer ⟨List.not_mem_nil, nofun⟩
        | cons first others =>
            rw [parts] at among
            rcases List.mem_cons.mp among with rfl | later
            · exact longer (ih (parts ▸ List.mem_cons_self))
            · have kept := ih (parts ▸ List.mem_cons_of_mem _ later)
              exact kept.imp_right fun within d inPart => List.mem_cons_of_mem _ (within d inPart)

end

theorem after?_append (start rest : List Char) : after? start (start ++ rest) = some rest := by
  induction start with
  | nil => rfl
  | cons c start ih => rw [List.cons_append, after?, if_pos rfl, ih]

/-! ## Lines -/

theorem dropReturn_of_getLast? {line : List Char} (stays : line.getLast? ≠ some '\r') :
    dropReturn line = line := by
  rw [dropReturn, before?, List.reverse_singleton]
  cases reversed : line.reverse with
  | nil => rfl
  | cons c rest =>
      have differs : ¬ '\r' = c := by
        rintro rfl
        rw [List.getLast?_eq_head?_reverse, reversed] at stays
        exact stays rfl
      rw [after?, if_neg differs]
      rfl

/-- Lines that are joined by line feeds are taken apart again. -/
theorem lines_intercalate {parts : List (List Char)}
    (whole : ∀ part ∈ parts, '\n' ∉ part ∧ part ≠ [] ∧ part.getLast? ≠ some '\r') :
    lines (['\n'].intercalate parts) = parts := by
  have kept : ∀ {parts : List (List Char)},
      (∀ part ∈ parts, '\n' ∉ part ∧ part ≠ [] ∧ part.getLast? ≠ some '\r') →
        linesOfParts parts = parts := by
    intro parts whole
    fun_induction linesOfParts parts with
    | case1 => rfl
    | case2 last gone => exact absurd (List.isEmpty_iff.mp gone) (whole last List.mem_cons_self).2.1
    | case3 last present => rfl
    | case4 part parts _ ih =>
        obtain ⟨⟨_, _, stays⟩, later⟩ := List.forall_mem_cons.mp whole
        rw [dropReturn_of_getLast? stays, ih later]
  cases parts with
  | nil => rfl
  | cons part parts =>
      rw [lines, splitAll_intercalate (List.cons_ne_nil _ _) fun part among => (whole part among).1,
        kept whole]

/-! ## Trimming -/

section

variable {p : Char → Bool}

/-- A tail is dropped from its end, so that a character goes only if all after it go. -/
theorem dropTail_cons (c : Char) (text : List Char) :
    dropTail p (c :: text) =
      if p c = true ∧ dropTail p text = [] then [] else c :: dropTail p text := by
  rw [dropTail, dropTail, List.reverse_cons, List.dropWhile_append]
  by_cases gone : text.reverse.dropWhile p = []
  · by_cases drops : p c = true <;> simp [gone, drops]
  · simp [gone]

/-- What stands before a character that is kept is kept. -/
theorem dropTail_append (before : List Char) {c : Char} (kept : p c = false) (after : List Char) :
    dropTail p (before ++ c :: after) = before ++ c :: dropTail p after := by
  induction before with
  | nil => simp [dropTail_cons, kept]
  | cons d before ih => simp [dropTail_cons, ih]

theorem dropTail_concat (text : List Char) {c : Char} (dropped : p c = true) :
    dropTail p (text ++ [c]) = dropTail p text := by
  rw [dropTail, List.reverse_append, List.reverse_singleton, List.singleton_append,
    List.dropWhile_cons_of_pos dropped, ← dropTail]

theorem length_dropTail_le (text : List Char) : (dropTail p text).length ≤ text.length := by
  rw [dropTail, List.length_reverse]
  exact Nat.le_trans (List.dropWhile_sublist p).length_le (Nat.le_of_eq List.length_reverse)

/-- Nothing is left to drop after a tail has been dropped. -/
theorem dropTail_dropTail (text : List Char) : dropTail p (dropTail p text) = dropTail p text := by
  induction text with
  | nil => rfl
  | cons c text ih =>
      rw [dropTail_cons]
      split
      · rfl
      · rename_i kept
        rw [dropTail_cons, ih, if_neg kept]

end

theorem trim_of_forall {text : List Char} (solid : ∀ c ∈ text, isBlank c = false) :
    trim text = text := by
  have keeps : ∀ {chars : List Char}, (∀ c ∈ chars, isBlank c = false) →
      chars.dropWhile isBlank = chars := by
    intro chars solid
    cases chars with
    | nil => rfl
    | cons c chars => simp [solid c List.mem_cons_self]
  rw [trim, trimStart, keeps solid, trimEnd, dropTail,
    keeps fun c among => solid c (List.mem_reverse.mp among), List.reverse_reverse]

/-- The end may be trimmed first. -/
theorem trim_trimEnd (text : List Char) : trim (trimEnd text) = trim text := by
  induction text with
  | nil => rfl
  | cons c text ih =>
      have skips : ∀ rest : List Char, isBlank c = true → trim (c :: rest) = trim rest := by
        intro rest blank
        simp [trim, trimStart, blank]
      rw [trimEnd, dropTail_cons, ← trimEnd]
      split
      · rename_i gone
        rw [skips text gone.1, ← ih, gone.2]
      · rename_i kept
        cases blank : isBlank c with
        | true => rw [skips _ blank, skips _ blank, ih]
        | false =>
            have stops : ∀ rest : List Char, trim (c :: rest) = trimEnd (c :: rest) := by
              intro rest
              simp [trim, trimStart, blank]
            rw [stops, stops, trimEnd, trimEnd, trimEnd, dropTail_cons, dropTail_dropTail,
              dropTail_cons]

/-! ## Letters in either case -/

/-- Only the two cases of a letter have it for their small letter. -/
theorem toLower_eq_iff {c letter : Char} (small : letter.isLower = true) :
    c.toLower = letter ↔ c = letter ∨ c = letter.toUpper := by
  obtain ⟨above, below⟩ := Bool.and_eq_true_iff.mp small
  have isSmall : 'a'.val ≤ letter.val ∧ letter.val ≤ 'z'.val :=
    ⟨of_decide_eq_true above, of_decide_eq_true below⟩
  have range : 97 ≤ letter.val.toNat ∧ letter.val.toNat ≤ 122 := isSmall
  have raised : letter.toUpper = ⟨letter.val + ('A'.val - 'a'.val), _⟩ := dif_pos isSmall
  -- the difference of the cases is below zero, so the sum goes round once
  have capital : (letter.val + ('A'.val - 'a'.val)).toNat + 32 = letter.val.toNat := by
    have difference : ('A'.val - 'a'.val).toNat = 4294967264 := by decide
    rw [UInt32.toNat_add, difference]
    omega
  by_cases isCapital : c.val ≥ 'A'.val ∧ c.val ≤ 'Z'.val
  · have range' : 65 ≤ c.val.toNat ∧ c.val.toNat ≤ 90 := isCapital
    have lowered : c.toLower = ⟨c.val + ('a'.val - 'A'.val), _⟩ := dif_pos isCapital
    have shifted : (c.val + ('a'.val - 'A'.val)).toNat = c.val.toNat + 32 := by
      have difference : ('a'.val - 'A'.val).toNat = 32 := by decide
      rw [UInt32.toNat_add, difference]
      omega
    rw [lowered, raised]
    simp only [Char.ext_iff, ← UInt32.toNat_inj, shifted]
    omega
  · have outside : ¬ (65 ≤ c.val.toNat ∧ c.val.toNat ≤ 90) := isCapital
    have kept : c.toLower = c := dif_neg isCapital
    rw [kept, raised]
    simp only [Char.ext_iff, ← UInt32.toNat_inj]
    omega

end ApiDocs.Text
