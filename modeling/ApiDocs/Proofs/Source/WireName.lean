import ApiDocs.Declaration.OfSource

/-!
# Names on the wire

What the entries of attributes say about a field or a variant, entry by entry. It is left out if any
of them has the key `skip` or `skip_serializing` (`Omitted`). Else it is named anew by the first of
them with the key `rename` or `rename.serialize`, unless that one has no value (`Renamed`); the
entries after it have no say. A variant that is not named anew keeps its name
(`Source.Variant.Named`).
-/

namespace ApiDocs

open Source

/-! ## Entries -/

/-- Some entry leaves out what it is written at. -/
def Omitted (entries : List Entry) : Prop :=
  ∃ entry ∈ entries, entry.key = "skip" ∨ entry.key = "skip_serializing"

/-- The entry is about the name. -/
def Source.Entry.IsRenaming (entry : Entry) : Prop :=
  entry.key = "rename" ∨ entry.key = "rename.serialize"

/-- The first entry about the name has the name for its value. -/
def Renamed (entries : List Entry) (name : String) : Prop :=
  ∃ before entry after, entries = before ++ entry :: after ∧
    (∀ earlier ∈ before, ¬ earlier.IsRenaming) ∧ entry.IsRenaming ∧ entry.value? = some name

variable {entries : List Entry} {name : String}

/-- What the reader leaves out is what an entry omits. -/
theorem leavesOut_iff : leavesOut entries = true ↔ Omitted entries := by
  simp only [leavesOut, Omitted, List.any_eq_true, Bool.or_eq_true, beq_iff_eq]

/-- The new name is that of the first entry that renames. -/
theorem newName?_eq_some_iff : newName? entries = some name ↔ Renamed entries name := by
  rw [newName?, Option.bind_eq_some_iff]
  have decides : ∀ entry : Entry,
      (entry.key == "rename" || entry.key == "rename.serialize") = true ↔ entry.IsRenaming := by
    intro entry
    rw [Bool.or_eq_true, beq_iff_eq, beq_iff_eq, Entry.IsRenaming]
  simp only [List.find?_eq_some_iff_append, Bool.not_eq_true', ← Bool.not_eq_true, decides]
  constructor
  · rintro ⟨entry, ⟨renames, before, after, split, earlier⟩, value⟩
    exact ⟨before, entry, after, split, earlier, renames, value⟩
  · rintro ⟨before, entry, after, split, earlier, renames, value⟩
    exact ⟨entry, ⟨renames, before, after, split, earlier⟩, value⟩

set_option maxRecDepth 10000 in
/-- Nested entries have the keys of all levels, and a second new name is not looked at. -/
example :
    (File.ofText? "#[serde(rename(serialize=\"x\"),rename=\"y\")]struct A;".toList).map
      (fun file => file.items.map fun item => entriesNamed "serde" item.attributes) =
        some [[⟨"rename.serialize", some "x"⟩, ⟨"rename", some "y"⟩]] ∧
      newName? [⟨"rename.serialize", some "x"⟩, ⟨"rename", some "y"⟩] = some "x" := by
  decide +kernel

/-- There is no new name if no entry is about the name, or the first that is has no value. -/
theorem newName?_eq_none_iff : newName? entries = none ↔ ∀ name, ¬ Renamed entries name := by
  simp only [← newName?_eq_some_iff, Option.eq_none_iff_forall_ne_some, ne_eq]

/-! ## Variants -/

namespace Source.Variant

/-- The name that the variant has on the wire, by the entries that are written at it. -/
inductive Named (variant : Variant) : String → Prop
  | anew {name : String} :
    ¬ Omitted (entriesNamed "serde" variant.attributes) →
    Renamed (entriesNamed "serde" variant.attributes) name → Named variant name
  | own :
    ¬ Omitted (entriesNamed "serde" variant.attributes) →
    (∀ name, ¬ Renamed (entriesNamed "serde" variant.attributes) name) →
    Named variant variant.name

variable {variant : Variant}

/-- A variant has no name on the wire just if an entry omits it. -/
theorem wireName?_eq_none_iff :
    variant.wireName? = none ↔ Omitted (entriesNamed "serde" variant.attributes) := by
  rw [← leavesOut_iff, wireName?]
  split
  · rename_i out
    exact iff_of_true rfl out
  · rename_i kept
    exact iff_of_false nofun kept

/-- The name on the wire is the one that the entries and the declaration give it. -/
theorem wireName?_eq_some_iff : variant.wireName? = some name ↔ variant.Named name := by
  constructor
  · intro given
    have kept : ¬ Omitted (entriesNamed "serde" variant.attributes) := by
      rw [← wireName?_eq_none_iff, given]
      nofun
    rw [wireName?, if_neg (mt leavesOut_iff.mp kept)] at given
    cases anew : newName? (entriesNamed "serde" variant.attributes) with
    | some other =>
        rw [anew] at given
        cases given
        exact .anew kept (newName?_eq_some_iff.mp anew)
    | none =>
        rw [anew] at given
        cases given
        exact .own kept (newName?_eq_none_iff.mp anew)
  · rintro (⟨kept, anew⟩ | ⟨kept, unnamed⟩)
    · rw [wireName?, if_neg (mt leavesOut_iff.mp kept), newName?_eq_some_iff.mpr anew]
      rfl
    · rw [wireName?, if_neg (mt leavesOut_iff.mp kept), newName?_eq_none_iff.mpr unnamed]
      rfl

end Source.Variant

end ApiDocs
