import ApiDocs.Proofs.Path
import Mathlib.Data.List.TakeWhile

/-!
# Spellings of a path

Paths with different components can be the same once `.` and `..` are resolved. They differ then by
`..`, or by a `.` at the beginning of a path that does not start at the root
(`components_eq_of_normalize_eq`). A path from the root without `..` leads forward (`Forward`), and
so do its parents and what is joined to it.
-/

namespace ApiDocs.Path

variable {path other : Path}

/-! ## The components after the head -/

theorem component?_eq_parent_iff {piece : List Char} :
    component? piece = some .parent ↔ piece = ['.', '.'] := by
  unfold component?
  split
  · rename_i void
    constructor
    · intro given
      cases given
    · rintro rfl
      cases void
  · split
    · rename_i same
      exact ⟨fun _ => same, fun _ => rfl⟩
    · rename_i differs
      constructor
      · intro given
        cases given
      · intro same
        exact absurd same differs

/-- The head of a path gives no further components. -/
theorem bodyComponents_splitHead (text : List Char) :
    bodyComponents (splitHead text).2 = bodyComponents text := by
  unfold splitHead
  split
  case h_1 rest => exact (bodyComponents_append [] rest).symm
  case h_2 => rfl
  case h_3 rest =>
    exact (bodyComponents_append [] rest).trans (bodyComponents_append ['.'] rest).symm
  case h_4 => rfl

/-- The head of a path has at most one component, and its body all others. -/
theorem components_eq (path : Path) :
    path.components = headComponent (splitHead path.text.toList).1 ++
      bodyComponents path.text.toList :=
  congrArg _ (bodyComponents_splitHead path.text.toList)

/-- Inside of a path there are only names and steps to the parent. -/
theorem mem_bodyComponents_cases {component : Component} {text : List Char}
    (among : component ∈ bodyComponents text) :
    component = .parent ∨ ∃ name, component = .name name := by
  obtain ⟨piece, _, given⟩ := List.mem_filterMap.mp among
  rw [component?] at given
  split at given
  · cases given
  · split at given
    · cases given
      exact Or.inl rfl
    · cases given
      exact Or.inr ⟨_, rfl⟩

theorem headComponent_cases (head : List Char) :
    headComponent head = [.root] ∨ headComponent head = [.current] ∨ headComponent head = [] := by
  unfold headComponent
  split
  · exact Or.inl rfl
  · split
    · exact Or.inr (Or.inl rfl)
    · exact Or.inr (Or.inr rfl)

/-- A path has a step to the parent just if two points stand between its separators. -/
theorem parent_mem_components_iff :
    .parent ∈ path.components ↔ ['.', '.'] ∈ Text.splitAll '/' path.text.toList := by
  have notHead : .parent ∉ headComponent (splitHead path.text.toList).1 := by
    rcases headComponent_cases (splitHead path.text.toList).1 with same | same | same <;>
      simp [same]
  rw [components_eq, List.mem_append, or_iff_right notHead, bodyComponents, List.mem_filterMap]
  constructor
  · rintro ⟨piece, among, given⟩
    rw [← component?_eq_parent_iff.mp given]
    exact among
  · intro among
    exact ⟨_, among, component?_eq_parent_iff.mpr rfl⟩

/-- The head of a path, told from its components. -/
theorem headComponent_splitHead (path : Path) :
    headComponent (splitHead path.text.toList).1 =
      if path.isAbsolute then [.root]
      else if .current ∈ path.components then [.current]
      else [] := by
  have notBody : .current ∉ bodyComponents path.text.toList := by
    intro among
    rcases mem_bodyComponents_cases among with same | ⟨_, same⟩ <;> cases same
  rw [components_eq, isAbsolute]
  generalize path.text.toList = text at notBody ⊢
  unfold splitHead
  split
  case h_1 rest => rfl
  case h_2 => rfl
  case h_3 rest => rfl
  case h_4 relative _ _ =>
    have begins : (text.head? == some '/') = false := by
      cases text with
      | nil => rfl
      | cons c rest =>
          simp only [List.head?_cons, beq_eq_false_iff_ne, ne_eq, Option.some.injEq]
          rintro rfl
          exact relative rest rfl
    rw [begins, if_neg Bool.false_ne_true, if_neg]
    · rfl
    · exact notBody

/-! ## Lexical resolution -/

/-- The components that the head may have lead nowhere, so the body alone decides. -/
theorem evaluated_eq (path : Path) :
    path.evaluated = (bodyComponents path.text.toList).foldl evaluate [] := by
  rw [evaluated, components_eq, List.foldl_append]
  rcases headComponent_cases (splitHead path.text.toList).1 with same | same | same <;>
    rw [same] <;> rfl

theorem named_evaluated (path : Path) : ∀ name ∈ path.evaluated, IsName name := by
  have asPieces : path.evaluated = (FileSystem.pieces path).foldl follow [] := by
    rw [evaluated_eq, FileSystem.pieces, foldl_follow_map]
    rfl
  rw [asPieces]
  have nothing : ∀ name ∈ ([] : List String), IsName name := List.forall_mem_nil _
  exact (simplifies_to_names nothing fun _ among => whole_of_mem_pieces among).2

/-- Names are the components of the path that is written from them, absolute or not. -/
theorem bodyComponents_ofNames (absolute : Bool) {names : List String}
    (named : ∀ name ∈ names, IsName name) :
    bodyComponents (ofNames absolute names).text.toList = names.map .name := by
  have body : bodyComponents (['/'].intercalate (names.map String.toList)) = names.map .name := by
    have rooted := components_ofNames named
    rw [components_of_text (toList_ofNames names)] at rooted
    exact (List.cons.inj rooted).2
  cases absolute with
  | true =>
      rw [toList_ofNames]
      exact (bodyComponents_append [] _).trans body
  | false =>
      rw [ofNames, String.toList_append, String.toList_intercalate]
      exact body

theorem isAbsolute_ofNames_eq (absolute : Bool) {names : List String}
    (named : ∀ name ∈ names, IsName name) : (ofNames absolute names).isAbsolute = absolute := by
  cases absolute with
  | true => exact isAbsolute_ofNames names
  | false =>
      rw [ofNames, isAbsolute, String.toList_append, String.toList_intercalate]
      cases names with
      | nil => rfl
      | cons first others =>
          have isName := named first List.mem_cons_self
          obtain ⟨c, rest, chars⟩ := List.exists_cons_of_ne_nil fun same =>
            isName.ne_empty (String.toList_inj.mp same)
          have differs : c ≠ '/' := by
            rintro rfl
            exact isName.noSeparator (chars ▸ List.mem_cons_self)
          cases others <;> simp [chars, differs]

/-- Paths that are the same once they are normal lead to the same place from the same start. -/
theorem of_normalize_eq (same : path.normalize = other.normalize) :
    path.isAbsolute = other.isAbsolute ∧ path.evaluated = other.evaluated := by
  constructor
  · have starts := congrArg isAbsolute same
    rw [normalize, normalize, isAbsolute_ofNames_eq _ (named_evaluated path),
      isAbsolute_ofNames_eq _ (named_evaluated other)] at starts
    exact starts
  · have bodies := congrArg (fun path => bodyComponents path.text.toList) same
    simp only [normalize, bodyComponents_ofNames _ (named_evaluated _)] at bodies
    exact List.map_injective_iff.mpr (fun _ _ alike => Component.name.inj alike) bodies

/-- Without steps to the parent nothing is taken back. -/
theorem map_foldl_evaluate {components : List Component}
    (named : ∀ component ∈ components, ∃ name, component = .name name) (names : List String) :
    (components.foldl evaluate names).map .name = names.map .name ++ components := by
  induction components generalizing names with
  | nil => exact (List.append_nil _).symm
  | cons component components ih =>
      obtain ⟨name, rfl⟩ := named component List.mem_cons_self
      rw [List.foldl_cons, ih fun other among => named other (List.mem_cons_of_mem _ among),
        evaluate, List.map_append, List.append_assoc]
      rfl

/-- A path without steps to the parent has the names that it leads to for its components. -/
theorem bodyComponents_of_onward (onward : .parent ∉ path.components) :
    bodyComponents path.text.toList = path.evaluated.map .name := by
  have named : ∀ component ∈ bodyComponents path.text.toList, ∃ name, component = .name name := by
    intro component among
    refine (mem_bodyComponents_cases among).resolve_left ?_
    rintro rfl
    rw [components_eq] at onward
    exact onward (List.mem_append_right _ among)
  rw [evaluated_eq, map_foldl_evaluate named]
  rfl

/-- Paths that are the same once `.` and `..` are resolved have the same components, unless one has
`..` or only one begins with `.`. -/
theorem components_eq_of_normalize_eq (same : path.normalize = other.normalize)
    (onward : .parent ∉ path.components) (too : .parent ∉ other.components)
    (current : .current ∈ path.components ↔ .current ∈ other.components) :
    path.components = other.components := by
  obtain ⟨starts, names⟩ := of_normalize_eq same
  rw [components_eq path, components_eq other, headComponent_splitHead path,
    headComponent_splitHead other, bodyComponents_of_onward onward,
    bodyComponents_of_onward too, starts, names]
  simp only [current]

/-! ## Paths that lead forward -/

/-- A path from the root without `..`. -/
structure Forward (path : Path) : Prop where
  absolute : path.isAbsolute = true
  onward : .parent ∉ path.components

theorem Forward.not_current (forward : path.Forward) : .current ∉ path.components := by
  obtain ⟨rest, begins⟩ := exists_of_isAbsolute forward.absolute
  rw [components_of_text begins]
  intro among
  rcases List.mem_cons.mp among with same | within
  · cases same
  · rcases mem_bodyComponents_cases within with same | ⟨_, same⟩ <;> cases same

/-- A piece of two texts with a separator between them is a piece of one of them. -/
theorem mem_splitAll_append {piece text rest : List Char} :
    piece ∈ Text.splitAll '/' (text ++ '/' :: rest) ↔
      piece ∈ Text.splitAll '/' text ∨ piece ∈ Text.splitAll '/' rest := by
  rw [Text.splitAll_append, List.mem_append]

/-- Nothing that leads back comes in by joining texts that do not lead back. -/
theorem Forward.join {base : Path} {text : String} (forward : base.Forward)
    (onward : .parent ∉ (Path.mk text).components) : (base.join text).Forward where
  absolute := isAbsolute_join forward.absolute text
  onward := by
    have before := mt parent_mem_components_iff.mpr forward.onward
    have after := mt parent_mem_components_iff.mpr onward
    rw [parent_mem_components_iff, Path.join]
    split
    · exact after
    · split
      · rename_i closed
        -- the separator that the base ends with is the one between the two
        obtain ⟨rest, begins⟩ := exists_of_isAbsolute forward.absolute
        have ends : base.text.toList.getLast? = some '/' := by
          have filled : base.text ≠ "" := by
            intro empty
            rw [empty] at begins
            cases begins
          simpa [filled] using closed
        obtain ⟨start, spelled⟩ := List.getLast?_eq_some_iff.mp ends
        rw [spelled, mem_splitAll_append, not_or] at before
        rw [String.toList_append, spelled, List.append_assoc, List.singleton_append,
          mem_splitAll_append]
        exact not_or.mpr ⟨before.1, after⟩
      · rw [String.toList_append, String.toList_append, List.append_assoc]
        exact fun among => (mem_splitAll_append.mp among).elim before after

/-- Cutting what was joined by separators gives no other pieces, but perhaps empty ones. -/
theorem mem_of_mem_splitAll_joinPieces {piece : List Char} {pieces : List (List Char)}
    (whole : ∀ piece ∈ pieces, '/' ∉ piece)
    (among : piece ∈ Text.splitAll '/' (joinPieces pieces)) : piece = [] ∨ piece ∈ pieces := by
  cases pieces with
  | nil => exact Or.inl (List.mem_singleton.mp among)
  | cons first others =>
      rw [joinPieces, Text.splitAll_intercalate (List.cons_ne_nil _ _) whole] at among
      exact Or.inr among

theorem parent?_eq (path : Path) :
    path.parent? =
      match (Text.splitAll '/' (splitHead path.text.toList).2).reverse.dropWhile
        fun piece => (component? piece).isNone with
      | _ :: before =>
        some ⟨.ofList ((splitHead path.text.toList).1 ++
          joinPieces (before.dropWhile fun piece => (component? piece).isNone).reverse)⟩
      | [] => if (splitHead path.text.toList).1 = ['.'] then some ⟨""⟩ else none := rfl

/-- The folder of a file has no steps to the parent if the file has none. -/
theorem Forward.parent {above : Path} (forward : path.Forward)
    (lies : path.parent? = some above) : above.Forward := by
  obtain ⟨rest, begins⟩ := exists_of_isAbsolute forward.absolute
  have onward := mt parent_mem_components_iff.mpr forward.onward
  rw [begins, ← List.nil_append ('/' :: rest), mem_splitAll_append, not_or] at onward
  rw [parent?_eq, begins, show splitHead ('/' :: rest) = (['/'], rest) from rfl] at lies
  split at lies
  · rename_i last before cut
    cases lies
    have kept : ∀ piece ∈ (before.dropWhile fun piece => (component? piece).isNone).reverse,
        piece ∈ Text.splitAll '/' rest := by
      intro piece among
      have inBefore := (List.dropWhile_sublist _).mem (List.mem_reverse.mp among)
      have inCut := cut ▸ List.mem_cons_of_mem last inBefore
      exact List.mem_reverse.mp ((List.dropWhile_sublist _).mem inCut)
    refine ⟨by rw [isAbsolute, String.toList_ofList]; rfl, ?_⟩
    rw [parent_mem_components_iff, String.toList_ofList, List.singleton_append,
      ← List.nil_append ('/' :: _), mem_splitAll_append, not_or]
    refine ⟨onward.1, fun among => ?_⟩
    rcases mem_of_mem_splitAll_joinPieces (fun piece listed =>
      (Text.of_mem_splitAll (kept piece listed)).1) among with empty | listed
    · cases empty
    · exact onward.2 (kept _ listed)
  · cases lies

end ApiDocs.Path

namespace ApiDocs.FileSystem

variable {fs : FileSystem} {path : Path} {tree : FileTree}

/-- Pieces that are void lead to the folder that they start from. -/
theorem walk_void {names reached pieces : List String}
    (void : ∀ piece ∈ pieces, piece = "" ∨ piece = ".")
    (walked : fs.walk names pieces = .ok reached) :
    reached = names ∧ (pieces ≠ [] → ∃ entries, fs.root.find? names = some (.folder entries)) := by
  induction pieces with
  | nil =>
      cases walked
      exact ⟨rfl, fun present => absurd rfl present⟩
  | cons piece pieces ih =>
      rw [walk] at walked
      cases stepped : fs.step names piece with
      | error obstacle =>
          rw [stepped] at walked
          cases walked
      | ok next =>
          rw [stepped] at walked
          rw [step] at stepped
          split at stepped
          · rename_i entries isFolder
            have stays : (piece.isEmpty || piece = ".") = true := by
              rcases void piece List.mem_cons_self with rfl | rfl <;> rfl
            rw [if_pos stays] at stepped
            cases stepped
            have rest := fun other among => void other (List.mem_cons_of_mem _ among)
            exact ⟨(ih rest walked).1, fun _ => ⟨entries, isFolder⟩⟩
          · cases stepped

/-- A path without a folder above it has no piece that leads anywhere. -/
theorem void_of_parent?_eq_none (top : path.parent? = none) :
    ∀ piece ∈ pieces path, piece = "" ∨ piece = "." := by
  have body : Path.bodyComponents path.text.toList = [] := by
    rw [← Path.bodyComponents_splitHead, Path.bodyComponents, List.filterMap_eq_nil_iff]
    intro piece among
    rw [Path.parent?_eq] at top
    split at top
    · cases top
    · rename_i none
      have void := List.dropWhile_eq_nil_iff.mp none piece (List.mem_reverse.mpr among)
      exact Option.isNone_iff_eq_none.mp void
  intro piece among
  obtain ⟨chars, cut, rfl⟩ := List.mem_map.mp among
  have void := List.filterMap_eq_nil_iff.mp body chars cut
  rw [Path.component?] at void
  split at void
  · rename_i same
    simp only [Bool.or_eq_true, decide_eq_true_eq] at same
    rcases same with rfl | rfl
    · exact Or.inl rfl
    · exact Or.inr rfl
  · split at void <;> cases void

/-- What is no folder has a parent. -/
theorem exists_parent (found : fs.lookup? path = some tree)
    (leaf : ∀ entries, tree ≠ .folder entries) : ∃ above, path.parent? = some above := by
  cases lies : path.parent? with
  | some above => exact ⟨above, rfl⟩
  | none =>
      exfalso
      rw [lookup?] at found
      obtain ⟨names, located, held⟩ := Option.bind_eq_some_iff.mp found
      rw [locate] at located
      split at located
      · cases walked : fs.walk (fs.start path) (pieces path) with
        | error obstacle =>
            rw [walked] at located
            cases located
        | ok reached =>
            rw [walked] at located
            cases located
            obtain ⟨rfl, isFolder⟩ := walk_void (void_of_parent?_eq_none lies) walked
            obtain ⟨entries, same⟩ := isFolder fun none =>
              Text.splitAll_ne_nil _ (List.map_eq_nil_iff.mp none)
            exact leaf entries (Option.some.inj (held.symm.trans same))
      · cases located

/-- A file stands in a folder. -/
theorem exists_parent_of_isFile (isFile : fs.isFile path = true) :
    ∃ above, path.parent? = some above := by
  rw [FileSystem.isFile] at isFile
  split at isFile
  · rename_i content found
    exact exists_parent found fun _ => by simp
  · rename_i found
    exact exists_parent found fun _ => by simp
  · cases isFile

theorem exists_parent_of_readText? {text : String} (read : fs.readText? path = some text) :
    ∃ above, path.parent? = some above := by
  rw [readText?] at read
  split at read
  · rename_i content found
    exact exists_parent found fun _ => by simp
  · cases read

end ApiDocs.FileSystem
