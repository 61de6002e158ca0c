import ApiDocs.FileSystem
import ApiDocs.Proofs.Text
import Mathlib.Data.List.Basic
import Mathlib.Data.List.Induction
import Mathlib.Logic.Relation

/-!
# Where paths lead

What a path from the root means does not depend on what exists: void pieces can be left out, `..`
takes the name before it away, and at the root it has no effect. `Simplifies` is one such
simplification of the pieces of a path, and `Path.LeadsTo` says which names are left when nothing
can be simplified any more. There is exactly one such list of names (`leadsTo_iff`), and the
normalized path is the one that is written from it (`normalize_eq_ofNames`).
-/

namespace ApiDocs.Path

/-! ## Names -/

/-- A piece that stands for an entry of a folder. -/
structure IsName (name : String) : Prop where
  ne_empty : name ≠ ""
  ne_current : name ≠ "."
  ne_parent : name ≠ ".."
  noSeparator : '/' ∉ name.toList

instance (name : String) : Decidable (IsName name) :=
  decidable_of_iff (name ≠ "" ∧ name ≠ "." ∧ name ≠ ".." ∧ '/' ∉ name.toList)
    ⟨fun parts => ⟨parts.1, parts.2.1, parts.2.2.1, parts.2.2.2⟩,
      fun isName => ⟨isName.1, isName.2, isName.3, isName.4⟩⟩

/-- A name is a component as it is. -/
theorem component?_of_isName {name : String} (isName : IsName name) :
    component? name.toList = some (.name name) := by
  have notVoid : name.toList ≠ [] := fun same => isName.ne_empty (String.toList_inj.mp same)
  have notCurrent : name.toList ≠ ['.'] := fun same => isName.ne_current (String.toList_inj.mp same)
  have notParent : name.toList ≠ ['.', '.'] := fun same =>
    isName.ne_parent (String.toList_inj.mp same)
  simp [component?, notVoid, notCurrent, notParent]

/-! ## Following pieces -/

/-- The names after one more piece. -/
def follow (names : List String) (piece : String) : List String :=
  match component? piece.toList with
  | some component => evaluate names component
  | none => names

/-- Nothing and a point lead nowhere else. -/
theorem follow_void (names : List String) {piece : String} (void : piece = "" ∨ piece = ".") :
    follow names piece = names := by
  rcases void with rfl | rfl <;> rfl

theorem follow_parent (names : List String) : follow names ".." = names.dropLast := rfl

theorem follow_name (names : List String) {name : String} (isName : IsName name) :
    follow names name = names ++ [name] := by
  rw [follow, component?_of_isName isName]
  rfl

/-- From some folder, names lead to the folder of those names below it. -/
theorem foldl_follow_names (before : List String) {names : List String}
    (named : ∀ name ∈ names, IsName name) : names.foldl follow before = before ++ names := by
  induction names generalizing before with
  | nil => exact (List.append_nil before).symm
  | cons name names ih =>
      rw [List.foldl_cons, follow_name before (named name List.mem_cons_self),
        ih _ fun other among => named other (List.mem_cons_of_mem _ among), List.append_assoc]
      rfl

/-- A piece is void, leads back, or is a name. -/
theorem piece_cases {piece : String} (whole : '/' ∉ piece.toList) :
    (piece = "" ∨ piece = ".") ∨ piece = ".." ∨ IsName piece := by
  by_cases empty : piece = ""
  · exact Or.inl (Or.inl empty)
  by_cases current : piece = "."
  · exact Or.inl (Or.inr current)
  by_cases parent : piece = ".."
  · exact Or.inr (Or.inl parent)
  · exact Or.inr (Or.inr ⟨empty, current, parent, whole⟩)

/-! ## Simplification -/

/-- One simplification of the pieces of a path from the root. -/
inductive Simplifies : List String → List String → Prop
  | void (before after : List String) {piece : String} :
    piece = "" ∨ piece = "." → Simplifies (before ++ piece :: after) (before ++ after)
  | back (before after : List String) {name : String} :
    IsName name → Simplifies (before ++ name :: ".." :: after) (before ++ after)
  | top (after : List String) : Simplifies (".." :: after) after

/-- Simplification does not change where pieces lead. -/
theorem Simplifies.follow_eq {pieces simpler : List String} (step : Simplifies pieces simpler) :
    pieces.foldl follow [] = simpler.foldl follow [] := by
  cases step with
  | void before after isVoid =>
      rw [List.foldl_append, List.foldl_append, List.foldl_cons, follow_void _ isVoid]
  | back before after isName =>
      rw [List.foldl_append, List.foldl_append, List.foldl_cons, List.foldl_cons,
        follow_name _ isName, follow_parent, List.dropLast_concat]
  | top after => rw [List.foldl_cons, follow_parent, List.dropLast_nil]

/-- Simplified pieces lead to the same place. -/
theorem follow_eq_of_reflTransGen {pieces simpler : List String}
    (steps : Relation.ReflTransGen Simplifies pieces simpler) :
    pieces.foldl follow [] = simpler.foldl follow [] := by
  induction steps with
  | refl => rfl
  | tail _ step ih => exact ih.trans step.follow_eq

/-- Pieces can be simplified to the names that they lead to. -/
theorem simplifies_to_names {names pieces : List String} (named : ∀ name ∈ names, IsName name)
    (whole : ∀ piece ∈ pieces, '/' ∉ piece.toList) :
    Relation.ReflTransGen Simplifies (names ++ pieces) (pieces.foldl follow names) ∧
      ∀ name ∈ pieces.foldl follow names, IsName name := by
  -- `names` are the pieces so far that are left
  induction pieces generalizing names with
  | nil =>
      rw [List.append_nil]
      exact ⟨.refl, named⟩
  | cons piece pieces ih =>
      have rest : ∀ piece ∈ pieces, '/' ∉ piece.toList := fun other among =>
        whole other (List.mem_cons_of_mem _ among)
      rw [List.foldl_cons]
      rcases piece_cases (whole piece List.mem_cons_self) with isVoid | rfl | isName
      · obtain ⟨steps, still⟩ := ih named rest
        rw [follow_void names isVoid]
        exact ⟨.head (.void names pieces isVoid) steps, still⟩
      · rw [follow_parent]
        cases names using List.reverseRecOn with
        | nil =>
          obtain ⟨steps, still⟩ := ih (List.forall_mem_nil _) rest
          exact ⟨.head (.top pieces) steps, still⟩
        | append_singleton before last =>
          have kept : ∀ name ∈ before, IsName name := fun name among =>
            named name (List.mem_append_left _ among)
          obtain ⟨steps, still⟩ := ih kept rest
          rw [List.dropLast_concat, List.append_assoc]
          exact ⟨.head (.back before pieces (named last (by simp))) steps, still⟩
      · have longer : ∀ name ∈ names ++ [piece], IsName name := by
          intro name among
          rcases List.mem_append.mp among with old | new
          · exact named name old
          · rw [List.mem_singleton.mp new]
            exact isName
        obtain ⟨steps, still⟩ := ih longer rest
        rw [follow_name names isName]
        rw [List.append_assoc, List.singleton_append] at steps
        exact ⟨steps, still⟩

/-- The names that a path from the root leads to. -/
def LeadsTo (path : Path) (names : List String) : Prop :=
  Relation.ReflTransGen Simplifies (FileSystem.pieces path) names ∧ ∀ name ∈ names, IsName name

/-! ## Paths from the root -/

/-- The components of a text without those of its head. -/
def bodyComponents (chars : List Char) : List Component :=
  (Text.splitAll '/' chars).filterMap component?

/-- A separator starts over: the parts before and after it have their own components. -/
theorem bodyComponents_append (chars rest : List Char) :
    bodyComponents (chars ++ '/' :: rest) = bodyComponents chars ++ bodyComponents rest := by
  rw [bodyComponents, Text.splitAll_append, List.filterMap_append]
  rfl

theorem bodyComponents_name {name : String} (isName : IsName name) :
    bodyComponents name.toList = [.name name] := by
  rw [bodyComponents, Text.splitAll_of_not_mem isName.noSeparator, List.filterMap_cons,
    component?_of_isName isName]
  rfl

section Absolute

variable {path : Path}

theorem exists_of_isAbsolute (absolute : path.isAbsolute = true) :
    ∃ rest, path.text.toList = '/' :: rest := by
  rw [isAbsolute, beq_iff_eq] at absolute
  exact List.head?_eq_some_iff.mp absolute

/-- The text after the first separator has all components but the root. -/
theorem components_of_text {rest : List Char} (begins : path.text.toList = '/' :: rest) :
    path.components = .root :: bodyComponents rest := by
  rw [components, begins]
  rfl

theorem isAbsolute_of_components {components : List Component}
    (begins : path.components = .root :: components) : path.isAbsolute = true := by
  have headed : ∀ {text : List Char}, (splitHead text).1 = ['/'] → text.head? = some '/' := by
    intro text same
    unfold splitHead at same
    split at same
    · rfl
    · cases same
    · cases same
    · cases same
  have fromBody : ∀ chars : List Char, Component.root ∉ bodyComponents chars := by
    intro chars among
    obtain ⟨piece, _, given⟩ := List.mem_filterMap.mp among
    rw [component?] at given
    split at given
    · cases given
    · split at given <;> cases given
  change headComponent (splitHead path.text.toList).1 ++
    bodyComponents (splitHead path.text.toList).2 = _ at begins
  rw [isAbsolute, beq_iff_eq]
  by_cases rooted : (splitHead path.text.toList).1 = ['/']
  · exact headed rooted
  · rw [headComponent, if_neg rooted] at begins
    split at begins
    · cases begins
    · rw [List.nil_append] at begins
      exact absurd (begins ▸ List.mem_cons_self) (fromBody (splitHead path.text.toList).2)

/-- Following the pieces of a path is evaluating its components; the pieces that give none lead
nowhere else. -/
theorem foldl_follow_map (pieces : List (List Char)) (names : List String) :
    (pieces.map String.ofList).foldl follow names =
      (pieces.filterMap component?).foldl evaluate names := by
  induction pieces generalizing names with
  | nil => rfl
  | cons piece pieces ih =>
      rw [List.map_cons, List.foldl_cons, ih, follow, String.toList_ofList, List.filterMap_cons]
      cases component? piece <;> rfl

/-- An absolute path evaluates to the names that its pieces lead to. -/
theorem evaluated_of_isAbsolute (absolute : path.isAbsolute = true) :
    path.evaluated = (FileSystem.pieces path).foldl follow [] := by
  obtain ⟨rest, begins⟩ := exists_of_isAbsolute absolute
  rw [evaluated, components_of_text begins, FileSystem.pieces, foldl_follow_map, begins]
  rfl

theorem whole_of_mem_pieces {piece : String} (among : piece ∈ FileSystem.pieces path) :
    '/' ∉ piece.toList := by
  obtain ⟨chars, cut, rfl⟩ := List.mem_map.mp among
  rw [String.toList_ofList]
  exact (Text.of_mem_splitAll cut).1

/-- An absolute path leads to the names that it evaluates to. -/
theorem leadsTo_evaluated (absolute : path.isAbsolute = true) : path.LeadsTo path.evaluated := by
  rw [evaluated_of_isAbsolute absolute]
  have nothing : ∀ name ∈ ([] : List String), IsName name := List.forall_mem_nil _
  exact simplifies_to_names nothing fun _ among => whole_of_mem_pieces among

/-- A path from the root leads to one list of names. -/
theorem leadsTo_iff (absolute : path.isAbsolute = true) {names : List String} :
    path.LeadsTo names ↔ names = path.evaluated := by
  constructor
  · rintro ⟨steps, named⟩
    rw [evaluated_of_isAbsolute absolute, follow_eq_of_reflTransGen steps,
      foldl_follow_names [] named, List.nil_append]
  · rintro rfl
    exact leadsTo_evaluated absolute

end Absolute

/-! ## Paths of names -/

theorem toList_ofNames (names : List String) :
    (ofNames true names).text.toList = '/' :: ['/'].intercalate (names.map String.toList) := by
  rw [ofNames, if_pos rfl, String.toList_append, String.toList_intercalate]
  rfl

theorem isAbsolute_ofNames (names : List String) : (ofNames true names).isAbsolute = true := by
  rw [isAbsolute, toList_ofNames]
  rfl

/-- A path that is written from names is taken apart into them. What comes after the names may be
cut further. -/
theorem components_ofNames_append {names : List String} (named : ∀ name ∈ names, IsName name)
    (more : List String) :
    (ofNames true (names ++ more)).components =
      .root :: (names.map .name ++
        bodyComponents (['/'].intercalate (more.map String.toList))) := by
  rw [components_of_text (toList_ofNames _), List.map_append]
  congr 1
  induction names with
  | nil => rfl
  | cons name names ih =>
      have isName := named name List.mem_cons_self
      have later := ih fun other among => named other (List.mem_cons_of_mem _ among)
      rw [List.map_cons, List.map_cons, List.cons_append, List.cons_append]
      cases rest : names.map String.toList ++ more.map String.toList with
      | nil =>
          obtain ⟨none, noMore⟩ := List.append_eq_nil_iff.mp rest
          rw [List.map_eq_nil_iff] at none
          subst none
          rw [List.intercalate_singleton, bodyComponents_name isName, noMore]
          rfl
      | cons next others =>
          rw [rest] at later
          rw [List.intercalate_cons_cons, List.append_assoc, List.singleton_append,
            bodyComponents_append, bodyComponents_name isName, later, List.singleton_append]

/-- A path that is written from names is taken apart into them. -/
theorem components_ofNames {names : List String} (named : ∀ name ∈ names, IsName name) :
    (ofNames true names).components = .root :: names.map .name := by
  have apart := components_ofNames_append named []
  rw [List.append_nil] at apart
  rw [apart]
  exact congrArg _ (List.append_nil _)

/-- A path that is written from names leads to them. -/
theorem evaluated_ofNames {names : List String} (named : ∀ name ∈ names, IsName name) :
    (ofNames true names).evaluated = names := by
  have added : ∀ (names before : List String),
      (names.map Component.name).foldl evaluate before = before ++ names := by
    intro names
    induction names with
    | nil => exact fun before => (List.append_nil before).symm
    | cons name names ih =>
        intro before
        rw [List.map_cons, List.foldl_cons, ih, evaluate, List.append_assoc]
        rfl
  rw [evaluated, components_ofNames named, List.foldl_cons]
  exact added names []

/-- A path that is written from names is normal already. -/
theorem normalize_ofNames {names : List String} (named : ∀ name ∈ names, IsName name) :
    (ofNames true names).normalize = ofNames true names := by
  rw [normalize, isAbsolute_ofNames, evaluated_ofNames named]

/-- The normalized path is written from the names that the path leads to. -/
theorem normalize_eq_ofNames {path : Path} (absolute : path.isAbsolute = true) :
    path.normalize = ofNames true path.evaluated := by
  rw [normalize, absolute]

/-! ## Joined paths -/

/-- What is joined to an absolute path is absolute, since an absolute path stands for itself. -/
theorem isAbsolute_join {base : Path} (absolute : base.isAbsolute = true) (path : String) :
    (base.join path).isAbsolute = true := by
  obtain ⟨rest, begins⟩ := exists_of_isAbsolute absolute
  rw [join]
  split
  · rename_i rooted
    rw [isAbsolute, rooted]
    rfl
  · split
    · simp [isAbsolute, begins]
    · simp [isAbsolute, begins]

/-- Nothing but absolute paths is below an absolute path. -/
theorem isAbsolute_of_startsWith {base path : Path} (absolute : base.isAbsolute = true)
    (below : path.startsWith base = true) : path.isAbsolute = true := by
  obtain ⟨rest, begins⟩ := exists_of_isAbsolute absolute
  rw [startsWith, after?, components_of_text begins] at below
  split at below
  · rename_i starts
    obtain ⟨more, same⟩ := List.isPrefixOf_iff_prefix.mp starts
    exact isAbsolute_of_components same.symm
  · cases below

/-- The text of a path of names ends with the last of them. -/
theorem exists_ending_ofNames (names : List String) (last : String) :
    ∃ start, (ofNames true (names ++ [last])).text.toList = start ++ last.toList := by
  rw [toList_ofNames, List.map_append]
  cases names with
  | nil => exact ⟨['/'], by simp⟩
  | cons first names =>
      refine ⟨'/' :: (['/'].intercalate ((first :: names).map String.toList) ++ ['/']), ?_⟩
      rw [Text.intercalate_append (by simp) (by simp)]
      simp

/-- Names below a path of names. -/
theorem join_ofNames {names more : List String} (named : ∀ name ∈ names, IsName name)
    (further : ∀ name ∈ more, IsName name) (present : more ≠ []) :
    (ofNames true names).join ("/".intercalate more) = ofNames true (names ++ more) := by
  have notEmpty : ∀ {name : String}, IsName name → name.toList ≠ [] := fun isName same =>
    isName.ne_empty (String.toList_inj.mp same)
  have relative : ("/".intercalate more).toList.head? ≠ some '/' := by
    obtain ⟨first, others, rfl⟩ := List.exists_cons_of_ne_nil present
    have isName := further first List.mem_cons_self
    obtain ⟨c, rest, chars⟩ := List.exists_cons_of_ne_nil (notEmpty isName)
    have differs : c ≠ '/' := by
      rintro rfl
      exact isName.noSeparator (chars ▸ List.mem_cons_self)
    rw [String.toList_intercalate, List.map_cons, chars]
    cases others <;> simp [differs]
  rw [join, if_neg relative]
  -- only the text of the root ends with a separator
  cases names using List.reverseRecOn with
  | nil => rfl
  | append_singleton before last =>
      have isName := named last (by simp)
      have lastChar : (ofNames true (before ++ [last])).text.toList.getLast? ≠ some '/' := by
        obtain ⟨start, chars⟩ := exists_ending_ofNames before last
        rw [chars, List.getLast?_append]
        intro same
        rcases Option.or_eq_some_iff.mp same with here | ⟨none, _⟩
        · exact isName.noSeparator (List.mem_of_getLast? here)
        · exact notEmpty isName (List.getLast?_eq_none_iff.mp none)
      have filled : (ofNames true (before ++ [last])).text ≠ "" := by
        intro same
        have chars := toList_ofNames (before ++ [last])
        rw [same] at chars
        cases chars
      rw [if_neg (by simp [lastChar, filled])]
      refine congrArg Path.mk (String.toList_inj.mp ?_)
      have whole := toList_ofNames ((before ++ [last]) ++ more)
      rw [List.map_append, Text.intercalate_append (by simp) (by simpa using present)] at whole
      rw [String.toList_append, String.toList_append, toList_ofNames, String.toList_intercalate]
      exact (List.append_assoc _ _ _).trans whole.symm

/-! ## Canonical paths -/

/-- A path from the root that normalizing does not change. -/
structure IsCanonical (path : Path) : Prop where
  absolute : path.isAbsolute = true
  normalized : path.normalize = path

/-- A canonical path is written from the names that it leads to. -/
theorem IsCanonical.eq_ofNames {path : Path} (canonical : path.IsCanonical) :
    path = ofNames true path.evaluated :=
  canonical.normalized.symm.trans (normalize_eq_ofNames canonical.absolute)

theorem isName_of_mem_evaluated {path : Path} (absolute : path.isAbsolute = true) :
    ∀ name ∈ path.evaluated, IsName name :=
  (leadsTo_evaluated absolute).2

/-- A path of names begins with a canonical path if its names do. What comes after these names does
not matter. -/
theorem startsWith_ofNames_append {names : List String} (named : ∀ name ∈ names, IsName name)
    (more : List String) :
    (ofNames true (names ++ more)).startsWith (ofNames true names) = true := by
  rw [startsWith, after?, components_ofNames named, components_ofNames_append named, if_pos]
  · rfl
  · rw [← List.cons_append]
    exact List.isPrefixOf_iff_prefix.mpr (List.prefix_append _ _)

/-- One path of names is below another if its names go on from those, and what comes after them is
what is left. -/
theorem after?_ofNames {base names : List String} (based : ∀ name ∈ base, IsName name)
    (named : ∀ name ∈ names, IsName name) {components : List Component} :
    after? (ofNames true base) (ofNames true names) = some components ↔
      ∃ more, names = base ++ more ∧ components = more.map .name := by
  have inj : Function.Injective (List.map Component.name) :=
    List.map_injective_iff.mpr fun _ _ same => Component.name.inj same
  rw [after?, components_ofNames based, components_ofNames named]
  constructor
  · intro found
    split at found
    · rename_i begins
      rw [List.isPrefixOf_iff_prefix, List.cons_prefix_cons] at begins
      obtain ⟨rest, same⟩ := begins.2
      obtain ⟨before, more, rfl, first, rfl⟩ := List.map_eq_append_iff.mp same.symm
      cases inj first
      cases found
      exact ⟨more, rfl, by simp⟩
    · cases found
  · rintro ⟨more, rfl, rfl⟩
    rw [if_pos]
    · simp
    · rw [List.isPrefixOf_iff_prefix, List.cons_prefix_cons, List.map_append]
      exact ⟨rfl, List.prefix_append _ _⟩

end ApiDocs.Path
