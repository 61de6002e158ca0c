import ApiDocs.Proofs.Names
import ApiDocs.Proofs.Text.Pattern
import Mathlib.Data.List.Forall2
import Mathlib.Data.List.TakeWhile

/-!
# Where line patterns stand

A pattern stands in a text if some part of the text can be cut into what its pieces take, one after
the other (`StandsIn`). Nothing is said there of which cut is preferred. The search prefers long
runs but gives every character back before it fails, so it finds a fit exactly if the pattern stands
in the text (`occurs_iff_standsIn`).
-/

namespace ApiDocs.Text

/-! ## Cuts -/

/-- A piece may take this part of a text, where `before` is the character to the left of the part
and `after` what follows it. -/
def Piece.Takes (piece : Piece) (before : Option Char) (taken after : List Char) : Prop :=
  match piece with
  | .exactly text => taken = text
  | .anyCase text => List.Forall₂ (fun letter c => Pattern.folds letter c = true) text taken
  | .oneOf texts => taken ∈ texts
  | .run member => taken ≠ [] ∧ ∀ c ∈ taken, member c = true
  | .capture member => taken ≠ [] ∧ ∀ c ∈ taken, member c = true
  | .optional c => taken = [] ∨ taken = [c]
  | .boundary => taken = [] ∧ Pattern.atBoundary before after = true

namespace Pattern

/-- The text begins with parts that the pieces take one after the other. -/
def StandsAt : Pattern → Option Char → List Char → Prop
  | [], _, _ => True
  | piece :: pieces, before, text =>
    ∃ taken after, text = taken ++ after ∧ piece.Takes before taken after ∧
      StandsAt pieces (taken.getLast?.or before) after

/-- The pattern stands at some place of the text. -/
def StandsIn (pattern : Pattern) (text : List Char) : Prop :=
  ∃ left right, text = left ++ right ∧ pattern.StandsAt left.getLast? right

theorem lastTaken_append (before : Option Char) (taken after : List Char) :
    lastTaken before (taken ++ after) taken.length = taken.getLast?.or before := by
  rw [lastTaken, List.take_left]

/-- Letters are taken in either case, one for one. -/
theorem afterFolded?_eq_some_iff {letters text rest : List Char} :
    afterFolded? letters text = some rest ↔
      ∃ taken, text = taken ++ rest ∧
        List.Forall₂ (fun letter c => folds letter c = true) letters taken := by
  induction letters generalizing text with
  | nil => simp [afterFolded?]
  | cons letter letters ih =>
      cases text with
      | nil =>
          refine iff_of_false nofun ?_
          rintro ⟨taken, empty, fold⟩
          cases fold
          cases empty
      | cons c text =>
          rw [afterFolded?]
          constructor
          · intro found
            split at found
            · rename_i same
              obtain ⟨taken, rfl, fold⟩ := ih.mp found
              exact ⟨c :: taken, rfl, .cons same fold⟩
            · cases found
          · rintro ⟨taken, split, fold⟩
            cases fold with
            | cons same fold =>
                cases split
                rw [if_pos same]
                exact ih.mpr ⟨_, rfl, fold⟩

/-- A search from the longest attempt down succeeds if one of the attempts does. -/
theorem isSome_longestFirst_iff {α : Type} {attempt : Nat → Option α} {bound : Nat} :
    (longestFirst attempt bound).isSome = true ↔
      ∃ count, 0 < count ∧ count ≤ bound ∧ (attempt count).isSome = true := by
  induction bound with
  | zero =>
      refine iff_of_false nofun ?_
      rintro ⟨count, present, none, _⟩
      omega
  | succ bound ih =>
      rw [longestFirst, Option.isSome_or, Bool.or_eq_true, ih]
      constructor
      · rintro (here | ⟨count, present, below, succeeds⟩)
        · exact ⟨bound + 1, Nat.succ_pos _, Nat.le_refl _, here⟩
        · exact ⟨count, present, Nat.le_succ_of_le below, succeeds⟩
      · rintro ⟨count, present, below, succeeds⟩
        rcases Nat.le_succ_iff.mp below with less | rfl
        · exact Or.inr ⟨count, present, less, succeeds⟩
        · exact Or.inl succeeds

/-- A run may end after any of its characters but not before the first. -/
theorem exists_run_iff {member : Char → Bool} {text : List Char}
    (Rest : List Char → List Char → Prop) :
    (∃ count, 0 < count ∧ count ≤ (text.takeWhile member).length ∧
      Rest (text.take count) (text.drop count)) ↔
    ∃ taken after, text = taken ++ after ∧ (taken ≠ [] ∧ ∀ c ∈ taken, member c = true) ∧
      Rest taken after := by
  constructor
  · rintro ⟨count, present, within, rest⟩
    have initial : text.take count = (text.takeWhile member).take count := by
      conv_lhs => rw [← List.takeWhile_append_dropWhile (p := member) (l := text)]
      rw [List.take_append_of_le_length within]
    refine ⟨_, _, (List.take_append_drop count text).symm, ⟨?_, fun c among => ?_⟩, rest⟩
    · rw [initial, Ne, List.take_eq_nil_iff, not_or]
      exact ⟨Nat.ne_of_gt present, List.ne_nil_of_length_pos (Nat.lt_of_lt_of_le present within)⟩
    · rw [initial] at among
      exact List.mem_takeWhile_imp (List.mem_of_mem_take among)
  · rintro ⟨taken, after, rfl, ⟨present, all⟩, rest⟩
    refine ⟨taken.length, List.length_pos_iff.mpr present, ?_, ?_⟩
    · rw [List.takeWhile_append_of_pos all, List.length_append]
      exact Nat.le_add_right _ _
    · rwa [List.take_left, List.drop_left]

/-! ## The search tries every cut -/

/-- A pattern fits at a place just if it stands there. -/
theorem isSome_fitHere_iff {pattern : Pattern} {before : Option Char} {text : List Char} :
    (fitHere pattern before text).isSome = true ↔ pattern.StandsAt before text := by
  induction pattern generalizing before text with
  | nil => exact iff_of_true rfl trivial
  | cons piece pieces ih =>
      rw [StandsAt]
      cases piece with
      | exactly word =>
          rw [fitHere, Option.isSome_bind, Option.any_eq_true]
          constructor
          · rintro ⟨rest, begins, later⟩
            cases TypeText.eq_append_of_after? begins
            rw [lastTaken_append, ih] at later
            exact ⟨word, rest, rfl, rfl, later⟩
          · rintro ⟨_, rest, rfl, rfl, later⟩
            refine ⟨rest, after?_append _ _, ?_⟩
            rwa [lastTaken_append, ih]
      | anyCase word =>
          rw [fitHere, Option.isSome_bind, Option.any_eq_true]
          constructor
          · rintro ⟨rest, begins, later⟩
            obtain ⟨taken, rfl, fold⟩ := afterFolded?_eq_some_iff.mp begins
            rw [fold.length_eq, lastTaken_append, ih] at later
            exact ⟨taken, rest, rfl, fold, later⟩
          · rintro ⟨taken, rest, rfl, fold, later⟩
            refine ⟨rest, afterFolded?_eq_some_iff.mpr ⟨taken, rfl, fold⟩, ?_⟩
            rwa [List.Forall₂.length_eq fold, lastTaken_append, ih]
      | oneOf words =>
          rw [fitHere, List.findSome?_isSome_iff]
          simp only [Option.isSome_bind, Option.any_eq_true, Option.isSome_map]
          constructor
          · rintro ⟨word, listed, rest, begins, later⟩
            cases TypeText.eq_append_of_after? begins
            rw [lastTaken_append, ih] at later
            exact ⟨word, rest, rfl, listed, later⟩
          · rintro ⟨word, rest, rfl, listed, later⟩
            refine ⟨word, listed, rest, after?_append _ _, ?_⟩
            rwa [lastTaken_append, ih]
      | run member =>
          rw [fitHere, isSome_longestFirst_iff]
          simp only [ih, lastTaken]
          exact exists_run_iff fun taken after => StandsAt pieces (taken.getLast?.or before) after
      | capture member =>
          rw [fitHere, isSome_longestFirst_iff]
          simp only [Option.isSome_map, ih, lastTaken]
          exact exists_run_iff fun taken after => StandsAt pieces (taken.getLast?.or before) after
      | optional c =>
          unfold fitHere
          rw [Option.isSome_or, Bool.or_eq_true, ih]
          constructor
          · rintro (taken | skipped)
            · cases text with
              | nil => cases taken
              | cons d rest =>
                  dsimp only at taken
                  split at taken
                  · rename_i same
                    subst same
                    exact ⟨[c], rest, rfl, Or.inr rfl, ih.mp taken⟩
                  · cases taken
            · exact ⟨[], text, rfl, Or.inl rfl, skipped⟩
          · rintro ⟨_, rest, rfl, rfl | rfl, later⟩
            · exact Or.inr later
            · refine Or.inl ?_
              dsimp only [List.cons_append, List.nil_append]
              rw [if_pos rfl, ih]
              exact later
      | boundary =>
          rw [fitHere]
          constructor
          · intro fits
            split at fits
            · rename_i atBoundary
              exact ⟨[], text, rfl, ⟨rfl, atBoundary⟩, ih.mp fits⟩
            · cases fits
          · rintro ⟨_, rest, rfl, ⟨rfl, atBoundary⟩, later⟩
            rw [List.nil_append, if_pos atBoundary, ih]
            exact later

theorem getLast?_cons_or (c : Char) (left : List Char) (before : Option Char) :
    (c :: left).getLast?.or before = left.getLast?.or (some c) := by
  rw [List.getLast?_cons]
  cases left.getLast? <;> rfl

/-- A pattern fits in a text just if it stands at one of its places. -/
theorem isSome_fitFrom_iff {pattern : Pattern} {before : Option Char} {text : List Char} :
    (fitFrom pattern before text).isSome = true ↔
      ∃ left right, text = left ++ right ∧ pattern.StandsAt (left.getLast?.or before) right := by
  induction text generalizing before with
  | nil =>
      rw [fitFrom, isSome_fitHere_iff]
      constructor
      · exact fun here => ⟨[], [], rfl, here⟩
      · rintro ⟨left, right, empty, here⟩
        obtain ⟨rfl, rfl⟩ := List.append_eq_nil_iff.mp empty.symm
        exact here
  | cons c text ih =>
      rw [fitFrom, Option.isSome_or, Bool.or_eq_true, isSome_fitHere_iff, ih]
      constructor
      · rintro (here | ⟨left, right, rfl, later⟩)
        · exact ⟨[], c :: text, rfl, here⟩
        · exact ⟨c :: left, right, rfl, by rwa [getLast?_cons_or]⟩
      · rintro ⟨left, right, split, stands⟩
        cases left with
        | nil =>
            cases split
            exact Or.inl stands
        | cons d left =>
            cases split
            exact Or.inr ⟨left, right, rfl, by rwa [getLast?_cons_or] at stands⟩

/-- The search finds a pattern exactly in the texts in which it stands. -/
theorem occurs_iff_standsIn {pattern : Pattern} {text : List Char} :
    pattern.occurs text = true ↔ pattern.StandsIn text := by
  rw [occurs, captures, isSome_fitFrom_iff]
  simp only [Option.or_none]
  rfl

instance (pattern : Pattern) (text : List Char) : Decidable (pattern.StandsIn text) :=
  decidable_of_iff _ occurs_iff_standsIn

end Pattern

end ApiDocs.Text
