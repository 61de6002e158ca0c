import ApiDocs.Definer
import Mathlib.Logic.Basic

/-!
# Tables as finite maps

Which keys a table has, what is found under them after `Table.set`, `Table.erase` and
`Table.ofList`, and that a table with ascending keys holds one value for each of them. `mergeKeys`
is what merging members does to their keys.
-/

namespace ApiDocs

namespace Table

variable {α : Type}

/-! ## Lookup -/

/-- A lookup fails exactly for keys that are not there. -/
theorem get?_eq_none_iff {table : Table α} {key : String} :
    table.get? key = none ↔ key ∉ table.keys := by
  induction table with
  | nil => simp [get?, keys]
  | cons entry rest ih =>
      rw [get?]
      split
      · rename_i same
        simp [keys, same]
      · rename_i differs
        rw [ih]
        simp [keys, Ne.symm differs]

theorem has_iff {table : Table α} {key : String} : table.has key = true ↔ key ∈ table.keys := by
  rw [has, Option.isSome_iff_ne_none, ne_eq, get?_eq_none_iff, not_not]

/-- A key with a value. -/
theorem exists_get?_of_mem_keys {table : Table α} {key : String} (present : key ∈ table.keys) :
    ∃ value, table.get? key = some value :=
  Option.ne_none_iff_exists'.mp fun absent => get?_eq_none_iff.mp absent present

theorem mem_keys_of_get? {table : Table α} {key : String} {value : α}
    (found : table.get? key = some value) : key ∈ table.keys :=
  List.mem_map_of_mem (mem_of_get? found)

/-- In a table without repeated keys every entry is found. -/
theorem get?_of_mem {table : Table α} {key : String} {value : α} (once : table.keys.Nodup)
    (present : (key, value) ∈ table) : table.get? key = some value := by
  induction table with
  | nil => cases present
  | cons entry rest ih =>
      obtain ⟨fresh, once⟩ := List.nodup_cons.mp once
      rw [get?]
      rcases List.mem_cons.mp present with rfl | later
      · exact if_pos rfl
      · have differs : entry.1 ≠ key := fun same => fresh (same ▸ List.mem_map_of_mem later)
        rw [if_neg differs]
        exact ih once later

/-! ## Insertion -/

/-- Insertion adds the key and no other. -/
theorem mem_keys_insert {table : Table α} {key other : String} {value : α} :
    other ∈ (table.insert key value).keys ↔ other = key ∨ other ∈ table.keys := by
  rw [← not_iff_not, ← get?_eq_none_iff, get?_insert]
  split
  · rename_i same
    simp [same]
  · rename_i differs
    rw [get?_eq_none_iff]
    simp [Ne.symm differs]

theorem Ascending.nodup {table : Table α} (ascending : table.Ascending) : table.keys.Nodup :=
  List.Pairwise.imp String.ne_of_lt ascending

/-- Ascending tables with the same keys have them in the same order. -/
theorem Ascending.keys_eq {table other : Table α} (ascending : table.Ascending)
    (ascending' : other.Ascending) (same : ∀ key, key ∈ table.keys ↔ key ∈ other.keys) :
    table.keys = other.keys := by
  have perm := (List.perm_ext_iff_of_nodup ascending.nodup ascending'.nodup).mpr same
  refine perm.eq_of_pairwise (fun a b _ _ below above => ?_) ascending ascending'
  exact absurd (String.lt_trans below above) (String.lt_irrefl a)

/-! ## Replacement -/

/-- After an assignment the key has the new value, and other keys have what they had. -/
theorem get?_set (table : Table α) (key : String) (value : α) (other : String) :
    (table.set key value).get? other = if key = other then some value else table.get? other := by
  induction table with
  | nil => rfl
  | cons entry rest ih =>
      obtain ⟨k, old⟩ := entry
      rw [set]
      by_cases same : k = key
      · rw [if_pos same, same, get?, get?]
        by_cases here : key = other
        · rw [if_pos here, if_pos here]
        · rw [if_neg here, if_neg here, if_neg here]
      · rw [if_neg same, get?, get?, ih]
        by_cases first : k = other
        · rw [if_pos first, if_pos first, if_neg fun equal => same (first.trans equal.symm)]
        · rw [if_neg first, if_neg first]

/-- After an erasure the key has nothing, and other keys have what they had. -/
theorem get?_erase (table : Table α) (key other : String) :
    (table.erase key).get? other = if key = other then none else table.get? other := by
  unfold erase
  induction table with
  | nil => simp [get?]
  | cons entry rest ih =>
      obtain ⟨k, old⟩ := entry
      by_cases same : k = key
      · subst same
        rw [List.filter_cons_of_neg (by simp), ih, get?]
        by_cases here : k = other
        · rw [if_pos here, if_pos here]
        · rw [if_neg here, if_neg here, if_neg here]
      · rw [List.filter_cons_of_pos (by simpa using same), get?, get?, ih]
        by_cases first : k = other
        · rw [if_pos first, if_pos first, if_neg fun equal => same (first.trans equal.symm)]
        · rw [if_neg first, if_neg first]

/-- An assignment keeps the order of the keys and puts a new one at the end. -/
theorem keys_set (table : Table α) (key : String) (value : α) :
    (table.set key value).keys = if key ∈ table.keys then table.keys else table.keys ++ [key] := by
  induction table with
  | nil => simp [set, keys]
  | cons entry rest ih =>
      rw [set]
      by_cases same : entry.1 = key
      · simp [keys, same]
      · rw [if_neg same]
        have further : keys ((entry.1, entry.2) :: set rest key value) =
            entry.1 :: (set rest key value).keys := rfl
        rw [further, ih]
        by_cases present : key ∈ keys rest
        · have among : key ∈ keys (entry :: rest) := List.mem_cons_of_mem _ present
          rw [if_pos present, if_pos among]
          rfl
        · have absent : key ∉ keys (entry :: rest) := by
            intro among
            rcases List.mem_cons.mp among with here | later
            · exact same here.symm
            · exact present later
          rw [if_neg present, if_neg absent]
          rfl

/-- A new key at the end of different keys is different from them. -/
theorem nodup_concat {keys : List String} (once : keys.Nodup) {key : String} (fresh : key ∉ keys) :
    (keys ++ [key]).Nodup := by
  refine List.nodup_append.mpr ⟨once, by simp, fun other among last here => ?_⟩
  rw [List.mem_singleton.mp here]
  exact fun same => fresh (same ▸ among)

/-- Assignments do not repeat keys. -/
theorem nodup_keys_set {table : Table α} (once : table.keys.Nodup) (key : String) (value : α) :
    (table.set key value).keys.Nodup := by
  rw [keys_set]
  split
  · exact once
  · rename_i fresh
    exact nodup_concat once fresh

/-! ## Tables over a list of keys -/

theorem get?_map_keys (keys : List String) (value : String → α) (key : String) :
    get? (keys.map fun k => (k, value k)) key = if key ∈ keys then some (value key) else none := by
  induction keys with
  | nil => rfl
  | cons first keys ih =>
      rw [List.map_cons, get?]
      by_cases same : first = key
      · rw [if_pos same, same, if_pos List.mem_cons_self]
      · rw [if_neg same, ih]
        simp only [List.mem_cons, Ne.symm same, false_or]

/-- A table that is computed from its keys stays so under assignment. -/
theorem set_map_keys (keys : List String) (value : String → α) (key : String) (new : α)
    (once : keys.Nodup) :
    set (keys.map fun k => (k, value k)) key new =
      (if key ∈ keys then keys else keys ++ [key]).map fun k =>
        (k, if k = key then new else value k) := by
  induction keys with
  | nil => simp [set]
  | cons first keys ih =>
      obtain ⟨alone, once⟩ := List.nodup_cons.mp once
      rw [List.map_cons, set]
      by_cases same : first = key
      · subst same
        rw [if_pos rfl, if_pos List.mem_cons_self, List.map_cons, if_pos rfl]
        refine congrArg _ (List.map_congr_left fun k among => ?_)
        have differs : k ≠ first := fun same => alone (same ▸ among)
        rw [if_neg differs]
      · rw [if_neg same, ih once]
        by_cases among : key ∈ keys
        · simp [among, same]
        · simp [among, same, Ne.symm same]

/-- Changing the values changes what is found, and nothing else. -/
theorem get?_map_values {β : Type} (table : Table α) (change : String → α → β) (key : String) :
    get? (table.map fun entry => (entry.1, change entry.1 entry.2)) key =
      (table.get? key).map (change key) := by
  induction table with
  | nil => rfl
  | cons entry table ih =>
      rw [List.map_cons, get?, get?]
      split
      · rename_i same
        rw [same, Option.map_some]
      · exact ih

/-! ## Tables of entries -/

private theorem mem_foldl_insert {entries : List (String × α)} {table : Table α}
    {entry : String × α}
    (present : entry ∈ entries.foldl (fun table e => Table.insert table e.1 e.2) table) :
    entry ∈ table ∨ entry ∈ entries := by
  induction entries generalizing table with
  | nil => exact Or.inl present
  | cons first rest ih =>
      rcases ih present with early | late
      · rcases mem_insert early with rfl | old
        · exact Or.inr List.mem_cons_self
        · exact Or.inl old
      · exact Or.inr (List.mem_cons_of_mem _ late)

/-- A table that is made from entries has no others. -/
theorem mem_of_mem_ofList {entries : List (String × α)} {entry : String × α}
    (present : entry ∈ ofList entries) : entry ∈ entries :=
  (mem_foldl_insert present).resolve_left List.not_mem_nil

private theorem mem_keys_foldl_insert {entries : List (String × α)} {table : Table α}
    {key : String} :
    key ∈ Table.keys (entries.foldl (fun table e => Table.insert table e.1 e.2) table) ↔
      key ∈ table.keys ∨ key ∈ entries.map Prod.fst := by
  induction entries generalizing table with
  | nil => simp
  | cons first rest ih =>
      rw [List.foldl_cons, ih, mem_keys_insert, List.map_cons, List.mem_cons, or_assoc,
        or_left_comm]

/-- A table that is made from entries has all their keys. -/
theorem mem_keys_ofList {entries : List (String × α)} {key : String} :
    key ∈ (ofList entries).keys ↔ key ∈ entries.map Prod.fst := by
  rw [ofList, mem_keys_foldl_insert]
  simp [keys]

/-- Insertion under a new key adds one entry. -/
theorem insert_perm {table : Table α} {key : String} (fresh : key ∉ table.keys) (value : α) :
    (table.insert key value).Perm ((key, value) :: table) := by
  induction table with
  | nil => exact .refl _
  | cons entry rest ih =>
      have differs : key ≠ entry.1 := fun same => fresh (same ▸ List.mem_cons_self)
      have absent : key ∉ keys rest := fun later => fresh (List.mem_cons_of_mem _ later)
      rw [insert, if_neg differs]
      split
      · exact .refl _
      · exact ((ih absent).cons entry).trans (.swap _ _ _)

private theorem perm_foldl_insert {entries : List (String × α)} {table : Table α}
    (once : (entries.map Prod.fst).Nodup) (apart : ∀ entry ∈ entries, entry.1 ∉ table.keys) :
    (entries.foldl (fun table e => Table.insert table e.1 e.2) table).Perm (table ++ entries) := by
  induction entries generalizing table with
  | nil => simp
  | cons first rest ih =>
      obtain ⟨alone, onceRest⟩ := List.nodup_cons.mp once
      have inserted := insert_perm (apart first List.mem_cons_self) first.2
      have apartRest : ∀ entry ∈ rest, entry.1 ∉ (Table.insert table first.1 first.2).keys := by
        intro entry later present
        rcases mem_keys_insert.mp present with same | old
        · exact alone (same ▸ List.mem_map_of_mem later)
        · exact apart entry (List.mem_cons_of_mem _ later) old
      exact (ih onceRest apartRest).trans ((inserted.append_right rest).trans List.perm_middle.symm)

/-- A table of entries with different keys has these entries. -/
theorem ofList_perm {entries : List (String × α)} (once : (entries.map Prod.fst).Nodup) :
    (ofList entries).Perm entries :=
  perm_foldl_insert once fun _ _ => List.not_mem_nil

/-- A table that is made from entries is ascending, in whatever order they come. -/
theorem ascending_ofList (entries : List (String × α)) : (ofList entries).Ascending := by
  have further : ∀ {table : Table α}, table.Ascending →
      Ascending (entries.foldl (fun table e => Table.insert table e.1 e.2) table) := by
    induction entries with
    | nil => exact fun ascending => ascending
    | cons first rest ih => exact fun ascending => ih (ascending.insert first.1 first.2)
  exact further List.Pairwise.nil

/-- An ascending table is determined by its entries. -/
theorem Ascending.eq_of_perm {table other : Table α} (ascending : table.Ascending)
    (ascending' : other.Ascending) (perm : table.Perm other) : table = other := by
  have ordered : ∀ {table : Table α}, table.Ascending → table.Pairwise fun a b => a.1 < b.1 :=
    List.pairwise_map.mp
  refine perm.eq_of_pairwise (fun a b _ _ below above => ?_) (ordered ascending)
    (ordered ascending')
  exact absurd (String.lt_trans below above) (String.lt_irrefl a.1)

/-- The order in which entries with different keys are put into a table does not matter. -/
theorem ofList_eq_of_perm {entries entries' : List (String × α)} (perm : entries.Perm entries')
    (once : (entries.map Prod.fst).Nodup) : ofList entries = ofList entries' := by
  have once' : (entries'.map Prod.fst).Nodup := (perm.map Prod.fst).nodup_iff.mp once
  refine (ascending_ofList entries).eq_of_perm (ascending_ofList entries') ?_
  exact (ofList_perm once).trans (perm.trans (ofList_perm once').symm)

/-! ## Tables with other values -/

/-- The table with every value changed. -/
def mapValues {β : Type} (change : α → β) (table : Table α) : Table β :=
  table.map fun entry => (entry.1, change entry.2)

section

variable {β : Type} (change : α → β)

theorem get?_mapValues (table : Table α) (key : String) :
    (table.mapValues change).get? key = (table.get? key).map change :=
  get?_map_values table (fun _ => change) key

/-- Values can be changed before or after an insertion. -/
theorem mapValues_insert (table : Table α) (key : String) (value : α) :
    (table.insert key value).mapValues change =
      (table.mapValues change).insert key (change value) := by
  induction table with
  | nil => rfl
  | cons entry rest ih =>
      have step : mapValues change (entry :: rest) =
          (entry.1, change entry.2) :: mapValues change rest := rfl
      rw [step, insert, insert]
      split
      · rfl
      · split
        · rfl
        · rw [← ih]
          rfl

theorem mapValues_ofList (entries : List (String × α)) :
    (ofList entries).mapValues change = ofList (mapValues change entries) := by
  have further : ∀ table : Table α,
      mapValues change (entries.foldl (fun table e => Table.insert table e.1 e.2) table) =
        (mapValues change entries).foldl (fun table e => Table.insert table e.1 e.2)
          (mapValues change table) := by
    induction entries with
    | nil => exact fun _ => rfl
    | cons first rest ih =>
        intro table
        rw [List.foldl_cons, ih, mapValues_insert]
        rfl
  exact further []

end

end Table

/-! ## Merging -/

/-- The keys of a host after the keys of an embedded type were added that it lacked. -/
def mergeKeys (host added : List String) : List String :=
  added.foldl (fun keys key => if key ∈ keys then keys else keys ++ [key]) host

/-- Merging adds only keys that are not there. -/
theorem nodup_mergeKeys {host : List String} (once : host.Nodup) (added : List String) :
    (mergeKeys host added).Nodup := by
  induction added generalizing host with
  | nil => exact once
  | cons key added ih =>
      rw [mergeKeys, List.foldl_cons]
      split
      · exact ih once
      · rename_i fresh
        exact ih (Table.nodup_concat once fresh)

namespace Scope

/-- Merging members is merging their keys, as far as keys go. -/
theorem keys_mergeMembers (host added : Table Member) :
    (mergeMembers host added).keys = mergeKeys host.keys added.keys := by
  induction added generalizing host with
  | nil => rfl
  | cons entry added ih =>
      have step : (mergeMembers host (entry :: added)).keys =
          (mergeMembers (if host.has entry.1 then host else host ++ [entry]) added).keys := rfl
      rw [step, ih]
      by_cases present : entry.1 ∈ host.keys
      · have same : mergeKeys host.keys (Table.keys (entry :: added)) =
            mergeKeys host.keys (Table.keys added) :=
          congrArg (List.foldl _ · _) (if_pos present)
        rw [if_pos (Table.has_iff.mpr present), same]
      · have longer : mergeKeys host.keys (Table.keys (entry :: added)) =
            mergeKeys (host.keys ++ [entry.1]) (Table.keys added) :=
          congrArg (List.foldl _ · _) (if_neg present)
        rw [if_neg (fun has => present (Table.has_iff.mp has)), longer]
        simp only [Table.keys, List.map_append, List.map_cons, List.map_nil]

/-- Merging keeps the host's members in front and takes the others from the embedded type. -/
theorem mergeMembers_eq_append (host added : Table Member) :
    ∃ taken, mergeMembers host added = host ++ taken ∧ ∀ entry ∈ taken, entry ∈ added := by
  induction added generalizing host with
  | nil => exact ⟨[], (List.append_nil host).symm, by simp⟩
  | cons entry added ih =>
      obtain ⟨taken, merged, drawn⟩ := ih (if host.has entry.1 then host else host ++ [entry])
      have step : mergeMembers host (entry :: added) =
          mergeMembers (if host.has entry.1 then host else host ++ [entry]) added := rfl
      rw [step, merged]
      split
      · exact ⟨taken, rfl, fun e member => List.mem_cons_of_mem _ (drawn e member)⟩
      · refine ⟨entry :: taken, by simp, fun e member => ?_⟩
        rcases List.mem_cons.mp member with rfl | later
        · exact List.mem_cons_self
        · exact List.mem_cons_of_mem _ (drawn e later)

end Scope

end ApiDocs
