import ApiDocs.Declaration
import Mathlib.Data.List.Induction

/-!
# Which group stands for a unit

The choice goes over the groups of a unit in order and holds one of them at a time. A library that
is held stays (`foldl_preferGroup_of_settled`), while an entry point gives way to every later group
that is no test, also to another entry point. So a unit is represented by its first library and,
where it has none, by its last entry point (`selectGroup_eq`). Tests do not count, and further entry
points count only where there is no library (`selected_by_kind`).
-/

namespace ApiDocs

/-- The groups of a kind, in order. -/
def ofKind (kind : TargetKind) (groups : List DeclGroup) : List DeclGroup :=
  groups.filter (·.kind = kind)

theorem ofKind_append (kind : TargetKind) (groups others : List DeclGroup) :
    ofKind kind (groups ++ others) = ofKind kind groups ++ ofKind kind others :=
  List.filter_append _ _

theorem ofKind_eq_self {kind : TargetKind} {groups : List DeclGroup}
    (all : ∀ group ∈ groups, group.kind = kind) : ofKind kind groups = groups := by
  simpa [ofKind] using all

theorem ofKind_eq_nil {kind : TargetKind} {groups : List DeclGroup}
    (apart : ∀ group ∈ groups, group.kind ≠ kind) : ofKind kind groups = [] := by
  simpa [ofKind] using apart

theorem ofKind_ne_nil_iff {kind : TargetKind} {groups : List DeclGroup} :
    ofKind kind groups ≠ [] ↔ ∃ group ∈ groups, group.kind = kind := by
  simp [ofKind, List.filter_eq_nil_iff]

/-! ## The choice -/

/-- A group that is no entry point stays. -/
theorem foldl_preferGroup_of_settled {current : DeclGroup} (settled : current.kind ≠ .entryPoint)
    (groups : List DeclGroup) : groups.foldl preferGroup (some current) = some current := by
  induction groups with
  | nil => rfl
  | cons group groups ih =>
      have kept : preferGroup (some current) group = some current := by
        unfold preferGroup
        dsimp only
        rw [if_neg settled, ite_self]
      rw [List.foldl_cons, kept, ih]

/-- From an entry point or from nothing on, every group that is no test is taken. -/
theorem preferGroup_of_open {selected : Option DeclGroup}
    (unsettled : ∀ current ∈ selected, current.kind = .entryPoint) {group : DeclGroup}
    (counts : group.kind ≠ .test) : preferGroup selected group = some group := by
  unfold preferGroup
  rw [if_neg counts]
  cases selected with
  | none => rfl
  | some current => exact if_pos (unsettled current rfl)

/-- From an entry point or from nothing on, the choice falls on the first library to come, else on
the last entry point. -/
theorem foldl_preferGroup_of_open {selected : Option DeclGroup}
    (unsettled : ∀ current ∈ selected, current.kind = .entryPoint) (groups : List DeclGroup) :
    groups.foldl preferGroup selected =
      (ofKind .library groups).head?.or ((ofKind .entryPoint groups).getLast?.or selected) := by
  induction groups generalizing selected with
  | nil => rfl
  | cons group groups ih =>
      rw [List.foldl_cons]
      cases kind : group.kind with
      | test =>
          have passed : preferGroup selected group = selected := if_pos kind
          rw [passed, ih unsettled]
          simp [ofKind, kind]
      | library =>
          rw [preferGroup_of_open unsettled (by simp [kind]),
            foldl_preferGroup_of_settled (by simp [kind])]
          simp [ofKind, kind]
      | entryPoint =>
          have stillOpen : ∀ current ∈ some group, current.kind = .entryPoint := by
            rintro _ ⟨⟩
            exact kind
          rw [preferGroup_of_open unsettled (by simp [kind]), ih stillOpen]
          simp [ofKind, kind, List.getLast?_cons]

/-- A unit is represented by its first library, or else by its last entry point. -/
theorem selectGroup_eq (groups : List DeclGroup) :
    selectGroup groups =
      (ofKind .library groups).head?.or (ofKind .entryPoint groups).getLast? := by
  have nothing : ∀ current ∈ (none : Option DeclGroup), current.kind = .entryPoint := by simp
  rw [selectGroup, foldl_preferGroup_of_open nothing, Option.or_none]

theorem selectGroup_of_library {groups : List DeclGroup}
    (library : ∃ group ∈ groups, group.kind = .library) :
    selectGroup groups = (ofKind .library groups).head? := by
  obtain ⟨first, others, cut⟩ := List.exists_cons_of_ne_nil (ofKind_ne_nil_iff.mpr library)
  rw [selectGroup_eq, cut]
  rfl

theorem selectGroup_of_no_library {groups : List DeclGroup}
    (noLibrary : ∀ group ∈ groups, group.kind ≠ .library) :
    selectGroup groups = (ofKind .entryPoint groups).getLast? := by
  rw [selectGroup_eq, ofKind_eq_nil noLibrary]
  rfl

/-! ## What the choice depends on -/

/-- The choice sees no tests. -/
theorem selectGroup_filter_not_test (groups : List DeclGroup) :
    selectGroup (groups.filter (·.kind ≠ .test)) = selectGroup groups := by
  have same : ∀ kind : TargetKind, kind ≠ .test →
      ofKind kind (groups.filter (·.kind ≠ .test)) = ofKind kind groups := by
    intro kind counts
    rw [ofKind, List.filter_filter]
    refine List.filter_congr fun group _ => ?_
    by_cases own : group.kind = kind
    · simp [own, counts]
    · simp [own]
  rw [selectGroup_eq, selectGroup_eq, same _ (by decide), same _ (by decide)]

/-- Further entry points change the choice just if there is no library, no entry point comes after
them, and the last of them is not what was chosen before. -/
theorem selectGroup_insert_entryPoints {added : List DeclGroup}
    (entryPoints : ∀ group ∈ added, group.kind = .entryPoint) (before after : List DeclGroup) :
    selectGroup (before ++ added ++ after) = selectGroup (before ++ after) ↔
      added = [] ∨ (∃ group ∈ before ++ after, group.kind = .library) ∨
        (∃ group ∈ after, group.kind = .entryPoint) ∨
        added.getLast? = selectGroup (before ++ after) := by
  have noLibraries : ofKind .library added = [] :=
    ofKind_eq_nil fun group among => by simp [entryPoints group among]
  rw [selectGroup_eq, selectGroup_eq, ofKind_append, ofKind_append, ofKind_append, ofKind_append,
    ofKind_append, ofKind_append, noLibraries, List.append_nil, ofKind_eq_self entryPoints,
    ← ofKind_append, ← ofKind_ne_nil_iff, ← ofKind_ne_nil_iff]
  -- what is left is about the last of the entry points, so the lists are taken apart at the end
  cases ofKind .library (before ++ after) with
  | cons first others => simp
  | nil =>
      cases later : ofKind .entryPoint after using List.reverseRecOn with
      | append_singleton others last => simp [← List.append_assoc]
      | nil =>
          cases added using List.reverseRecOn with
          | nil => simp
          | append_singleton others last => simp [← List.append_assoc]

/-- The first library stands for a unit, or else its last entry point. That the first entry point
does is so just if there is a library or no other entry point is the last one. Tests can be put in
and taken out anywhere. Entry points can be put in where there is a library or another entry point
comes later; elsewhere the last of them is chosen. -/
theorem selected_by_kind (groups : List DeclGroup) :
    selectGroup groups =
        (ofKind .library groups).head?.or (ofKind .entryPoint groups).getLast? ∧
      (selectGroup groups =
          (ofKind .library groups).head?.or (ofKind .entryPoint groups).head? ↔
        (∃ group ∈ groups, group.kind = .library) ∨
          (ofKind .entryPoint groups).head? = (ofKind .entryPoint groups).getLast?) ∧
      (∀ others : List DeclGroup,
        others.filter (·.kind ≠ .test) = groups.filter (·.kind ≠ .test) →
          selectGroup others = selectGroup groups) ∧
      ∀ before added after : List DeclGroup, before ++ after = groups →
        (∀ group ∈ added, group.kind = .entryPoint) →
          (selectGroup (before ++ added ++ after) = selectGroup groups ↔
            added = [] ∨ (∃ group ∈ groups, group.kind = .library) ∨
              (∃ group ∈ after, group.kind = .entryPoint) ∨
              added.getLast? = selectGroup groups) := by
  refine ⟨selectGroup_eq groups, ?_, fun others same => ?_,
    fun before added after cut entryPoints => ?_⟩
  · by_cases library : ∃ group ∈ groups, group.kind = .library
    · obtain ⟨first, others, libraries⟩ :=
        List.exists_cons_of_ne_nil (ofKind_ne_nil_iff.mpr library)
      rw [selectGroup_of_library library, libraries]
      exact iff_of_true rfl (Or.inl library)
    · have noLibrary : ∀ group ∈ groups, group.kind ≠ .library := fun group among is =>
        library ⟨group, among, is⟩
      rw [selectGroup_of_no_library noLibrary, ofKind_eq_nil noLibrary, List.head?_nil,
        Option.none_or, or_iff_right library]
      exact eq_comm
  · rw [← selectGroup_filter_not_test others, same, selectGroup_filter_not_test]
  · subst cut
    exact selectGroup_insert_entryPoints entryPoints before after

/-- A package with a test and two programs, and no library. -/
def programs : List DeclGroup :=
  [{ name := "main", kind := .entryPoint }, { name := "it", kind := .test },
    { name := "tool", kind := .entryPoint }]

/-- Without the test the same program is chosen, and a third program is chosen in its place if it
comes last. -/
theorem selected_by_kind_programs :
    selectGroup programs = some { name := "tool", kind := .entryPoint } ∧
      selectGroup (programs.filter (·.kind ≠ .test)) = selectGroup programs ∧
      selectGroup (programs ++ [{ name := "admin", kind := .entryPoint }]) ≠
        selectGroup programs := by
  obtain ⟨chosen, _, tests, further⟩ := selected_by_kind programs
  refine ⟨chosen.trans (by decide), tests _ (by decide), ?_⟩
  have changes := further programs [{ name := "admin", kind := .entryPoint }] [] (by decide)
    (by decide)
  rw [List.append_nil] at changes
  rw [Ne, changes]
  decide

/-- Of two programs the second is chosen, where the first was to stand for the unit. -/
theorem second_program_selected :
    let main : DeclGroup := { name := "first", kind := .entryPoint }
    let tool : DeclGroup := { name := "second", kind := .entryPoint }
    selectGroup [main, tool] = some tool ∧
      selectGroup [main, tool] ≠
        (ofKind .library [main, tool]).head?.or (ofKind .entryPoint [main, tool]).head? ∧
      selectGroup ([main] ++ [tool]) ≠ selectGroup [main] := by
  decide

end ApiDocs
