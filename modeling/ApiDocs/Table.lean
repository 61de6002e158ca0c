/-!
# Tables

Finite maps with text keys, kept as lists of entries. `Table.set` keeps the order in which keys
were first added; `Table.insert` keeps the keys in ascending order of their characters
(`Table.Ascending.insert`). A key occurs at most once in a table built with either.
-/

namespace ApiDocs

/-- Entries with text keys. -/
abbrev Table (α : Type) := List (String × α)

namespace Table

variable {α β : Type}

/-- The value under a key. -/
def get? (table : Table α) (key : String) : Option α :=
  match table with
  | [] => none
  | (k, value) :: rest => if k = key then some value else get? rest key

/-- What the value under a key stands for: nothing if the key is absent, and a failure if the value
does not fit. -/
def decode? (table : Table α) (key : String) (decode : α → Option β) : Option (Option β) :=
  match get? table key with
  | none => some none
  | some value => (decode value).map some

/-- Whether a key is present. -/
def has (table : Table α) (key : String) : Bool := (get? table key).isSome

/-- The keys in order. -/
def keys (table : Table α) : List String := table.map Prod.fst

/-- The values in order. -/
def values (table : Table α) : List α := table.map Prod.snd

/-- Puts a value under a key: in the key's place if it is present, else at the end. -/
def set (table : Table α) (key : String) (value : α) : Table α :=
  match table with
  | [] => [(key, value)]
  | (k, old) :: rest => if k = key then (k, value) :: rest else (k, old) :: set rest key value

/-- Puts a value under a key in a table whose keys ascend. -/
def insert (table : Table α) (key : String) (value : α) : Table α :=
  match table with
  | [] => [(key, value)]
  | (k, old) :: rest =>
    if key = k then (key, value) :: rest
    else if key < k then (key, value) :: (k, old) :: rest
    else (k, old) :: insert rest key value

/-- The table without a key. -/
def erase (table : Table α) (key : String) : Table α := table.filter (·.1 ≠ key)

/-- A table with ascending keys from entries in any order; of several values under one key the
last is kept. -/
def ofList (entries : List (String × α)) : Table α :=
  entries.foldl (fun table entry => insert table entry.1 entry.2) []

/-! ## Lookup and insertion -/

theorem mem_of_get? {table : Table α} {key : String} {value : α}
    (found : table.get? key = some value) : (key, value) ∈ table := by
  induction table with
  | nil => cases found
  | cons entry rest ih =>
      rw [get?] at found
      split at found
      · rename_i same
        cases found
        exact same ▸ List.mem_cons_self
      · exact List.mem_cons_of_mem _ (ih found)

/-- Insertion changes what is found under its own key, and under no other. -/
theorem get?_insert (table : Table α) (key : String) (value : α) (other : String) :
    (table.insert key value).get? other = if key = other then some value else table.get? other := by
  induction table with
  | nil => rfl
  | cons entry rest ih =>
      obtain ⟨k, old⟩ := entry
      rw [insert]
      split
      · rename_i same
        subst same
        rw [get?, get?]
        split <;> rfl
      · rename_i differs
        split
        · rw [get?]
        · rw [get?, ih, get?]
          split
          · rename_i here
            subst here
            rw [if_neg differs]
          · rfl

theorem mem_insert {table : Table α} {key : String} {value : α} {entry : String × α}
    (present : entry ∈ table.insert key value) : entry = (key, value) ∨ entry ∈ table := by
  induction table with
  | nil => exact Or.inl (List.mem_singleton.mp present)
  | cons first rest ih =>
      rw [insert] at present
      split at present
      · rcases List.mem_cons.mp present with same | later
        · exact Or.inl same
        · exact Or.inr (List.mem_cons_of_mem _ later)
      · split at present
        · rcases List.mem_cons.mp present with same | later
          · exact Or.inl same
          · exact Or.inr later
        · rcases List.mem_cons.mp present with same | later
          · exact Or.inr (same ▸ List.mem_cons_self)
          · exact (ih later).imp_right (List.mem_cons_of_mem _)

/-- Keys in strictly ascending order. -/
def Ascending (table : Table α) : Prop := table.keys.Pairwise (· < ·)

/-- Insertion keeps keys ascending. -/
theorem Ascending.insert {table : Table α} (ascending : table.Ascending) (key : String)
    (value : α) : (table.insert key value).Ascending := by
  induction table with
  | nil => exact List.pairwise_singleton _ _
  | cons entry rest ih =>
      obtain ⟨k, old⟩ := entry
      obtain ⟨least, ascendingRest⟩ := List.pairwise_cons.mp ascending
      rw [Table.insert]
      split
      · rename_i same
        subst same
        exact ascending
      · rename_i differs
        split
        · rename_i less
          refine List.pairwise_cons.mpr ⟨fun other present => ?_, ascending⟩
          rcases List.mem_cons.mp present with rfl | later
          · exact less
          · exact String.lt_trans less (least other later)
        · rename_i notLess
          refine List.pairwise_cons.mpr ⟨fun other present => ?_, ih ascendingRest⟩
          obtain ⟨entry, among, rfl⟩ := List.mem_map.mp present
          rcases mem_insert among with rfl | later
          · exact String.not_le.mp fun below => differs
              (String.le_antisymm below (String.not_lt.mp notLess))
          · exact least entry.1 (List.mem_map_of_mem later)

end Table

end ApiDocs
