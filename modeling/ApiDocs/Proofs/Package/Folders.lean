import ApiDocs.Package
import ApiDocs.Proofs.Path
import ApiDocs.Proofs.Table

/-!
# Folders of packages

The import path of a folder below the source root is written from the names that lead there, and is
read back by joining it to the source root (`import_path_identifies_folder`). What a loader answers
for an import path depends on nothing but the folder that the path is joined to: a folder outside
the source root, or without a manifest, is not located (`Loader.settled_ofPackages`).
-/

namespace ApiDocs

open ApiDocs.Path (IsName ofNames)

/-! ## Import paths -/

section ImportPaths

variable {roots names : List String} (rooted : ∀ name ∈ roots, IsName name)
  (named : ∀ name ∈ names, IsName name)

include rooted named

/-- A folder has an import path if it lies strictly below the source root. -/
theorem importPath?_ofNames (path : ImportPath) :
    importPath? (ofNames true roots) (ofNames true names) = some path ↔
      ∃ more, more ≠ [] ∧ names = roots ++ more ∧ path = "/".intercalate more := by
  have texts : ∀ more : List String,
      (more.map Path.Component.name).map Path.Component.text = more :=
    fun more => by simp [Function.comp_def, Path.Component.text]
  rw [importPath?]
  constructor
  · intro given
    split at given
    · cases given
    · cases given
    · rename_i components notEmpty found
      obtain ⟨more, rfl, rfl⟩ := (Path.after?_ofNames rooted named).mp found
      rw [texts] at given
      refine ⟨more, ?_, rfl, (Option.some.inj given).symm⟩
      rintro rfl
      exact notEmpty rfl
  · rintro ⟨more, present, rfl, rfl⟩
    rw [(Path.after?_ofNames rooted named).mpr ⟨more, rfl, rfl⟩]
    split
    · rename_i none
      exact absurd (List.map_eq_nil_iff.mp (Option.some.inj none)) present
    · rename_i none
      cases none
    · rename_i found
      cases found
      rw [texts]

theorem startsWith_ofNames_iff :
    (ofNames true names).startsWith (ofNames true roots) = true ↔ roots <+: names := by
  rw [Path.startsWith, Option.isSome_iff_exists]
  simp only [Path.after?_ofNames rooted named]
  constructor
  · rintro ⟨_, more, rfl, _⟩
    exact List.prefix_append _ _
  · rintro ⟨more, rfl⟩
    exact ⟨_, more, rfl, rfl⟩

end ImportPaths

/-! ## Entries of trees -/

namespace FileTree

/-- The tree is a file, of whatever content. -/
def IsFile : FileTree → Prop
  | .text _ | .binary => True
  | .folder _ => False

theorem find?_append (tree : FileTree) (names more : List String) :
    tree.find? (names ++ more) = (tree.find? names).bind (·.find? more) := by
  induction names generalizing tree with
  | nil => rw [List.nil_append, find?, Option.bind_some]
  | cons name names ih =>
      cases tree with
      | folder entries =>
          rw [List.cons_append, find?, find?, Option.bind_assoc]
          exact Option.bind_congr fun child _ => ih child
      | text content => rfl
      | binary => rfl

theorem exists_of_find?_cons {tree file : FileTree} {name : String} {names : List String}
    (found : tree.find? (name :: names) = some file) :
    ∃ entries child, tree = .folder entries ∧ Table.get? entries name = some child ∧
      child.find? names = some file := by
  cases tree with
  | text content => cases found
  | binary => cases found
  | folder entries =>
      obtain ⟨child, here, below⟩ := Option.bind_eq_some_iff.mp found
      exact ⟨entries, child, rfl, here, below⟩

theorem foldersWithin_of_mem {file : String} {above found : List String}
    {entries : List (String × FileTree)} {name : String} {child : FileTree}
    (among : (name, child) ∈ entries) (below : found ∈ foldersWith file (above ++ [name]) child) :
    found ∈ foldersWithin file above entries := by
  induction entries with
  | nil => cases among
  | cons entry entries ih =>
      rw [foldersWithin]
      rcases List.mem_cons.mp among with rfl | later
      · exact List.mem_append_left _ below
      · exact List.mem_append_right _ (ih later)

/-- Every folder with the file is listed. -/
theorem mem_foldersWith {tree found : FileTree} {file : String} {names : List String}
    (stands : tree.find? (names ++ [file]) = some found) (isFile : found.IsFile)
    (above : List String) : above ++ names ∈ foldersWith file above tree := by
  induction names generalizing tree above with
  | nil =>
      obtain ⟨entries, child, rfl, here, same⟩ := exists_of_find?_cons stands
      cases same
      rw [List.append_nil, foldersWith]
      refine List.mem_append_left _ ?_
      rw [here]
      cases found with
      | text content => exact List.mem_singleton_self _
      | binary => exact List.mem_singleton_self _
      | folder entries => exact isFile.elim
  | cons name names ih =>
      obtain ⟨entries, child, rfl, here, below⟩ := exists_of_find?_cons stands
      have listed := ih below (above ++ [name])
      rw [List.append_assoc, List.singleton_append] at listed
      rw [foldersWith]
      exact List.mem_append_right _ (foldersWithin_of_mem (Table.mem_of_get? here) listed)

mutual

/-- Only names below the given ones are listed. -/
theorem prefix_of_mem_foldersWith {file : String} {above found : List String} :
    (tree : FileTree) → found ∈ foldersWith file above tree → above <+: found
  | .text _, among => by cases among
  | .binary, among => by cases among
  | .folder entries, among => by
    rw [foldersWith] at among
    rcases List.mem_append.mp among with here | below
    · split at here
      · exact List.mem_singleton.mp here ▸ List.prefix_rfl
      · exact List.mem_singleton.mp here ▸ List.prefix_rfl
      · cases here
    · exact prefix_of_mem_foldersWithin entries below

theorem prefix_of_mem_foldersWithin {file : String} {above found : List String} :
    (entries : List (String × FileTree)) → found ∈ foldersWithin file above entries →
      above <+: found
  | [], among => by cases among
  | (name, child) :: entries, among => by
    rw [foldersWithin] at among
    rcases List.mem_append.mp among with first | later
    · exact (List.prefix_append above [name]).trans (prefix_of_mem_foldersWith child first)
    · exact prefix_of_mem_foldersWithin entries later

end

end FileTree

/-! ## Following names -/

namespace FileSystem

variable {fs : FileSystem}

theorem walk_names {before names left : List String} (named : ∀ name ∈ names, IsName name)
    (walked : fs.walk before names = .ok left) : left = before ++ names := by
  induction names generalizing before with
  | nil => exact (Except.ok.inj walked).symm.trans (List.append_nil before).symm
  | cons name names ih =>
      have isName := named name List.mem_cons_self
      rw [walk] at walked
      split at walked
      · rename_i names' stepped
        have here : names' = before ++ [name] := by
          rw [step] at stepped
          split at stepped
          · rw [if_neg (by simp [isName.ne_empty, isName.ne_current]), if_neg isName.ne_parent]
              at stepped
            split at stepped
            · cases stepped
            · split at stepped
              · exact (Except.ok.inj stepped).symm
              · cases stepped
          · cases stepped
        rw [ih (fun other among => named other (List.mem_cons_of_mem _ among)) walked, here,
          List.append_assoc, List.singleton_append]
      · cases walked

theorem pieces_ofNames {names : List String} (named : ∀ name ∈ names, IsName name)
    (present : names ≠ []) : pieces (ofNames true names) = "" :: names := by
  rw [pieces, Path.toList_ofNames, Text.splitAll, if_pos rfl,
    Text.splitAll_intercalate (by simpa using present)]
  · simp
  · intro part among
    obtain ⟨name, listed, rfl⟩ := List.mem_map.mp among
    exact (named name listed).noSeparator

/-- A path of names leads nowhere but to its names. -/
theorem find?_of_lookup? {names : List String} (named : ∀ name ∈ names, IsName name)
    (present : names ≠ []) {tree : FileTree}
    (found : fs.lookup? (ofNames true names) = some tree) : fs.root.find? names = some tree := by
  obtain ⟨left, located, here⟩ := Option.bind_eq_some_iff.mp found
  have walked : fs.walk [] (pieces (ofNames true names)) = .ok left := by
    rw [locate, start, Path.isAbsolute_ofNames, if_pos rfl] at located
    split at located
    · cases ran : fs.walk [] (pieces (ofNames true names)) with
      | error obstacle =>
          rw [ran] at located
          cases located
      | ok _ =>
          rw [ran] at located
          cases located
          rfl
    · cases located
  rw [pieces_ofNames named present, walk] at walked
  split at walked
  · rename_i start stepped
    have atRoot : start = [] := by
      rw [step] at stepped
      split at stepped
      · exact (Except.ok.inj stepped).symm
      · cases stepped
    rw [atRoot] at walked
    rw [walk_names named walked, List.nil_append] at here
    exact here
  · cases walked

theorem exists_of_isFile {names : List String} (named : ∀ name ∈ names, IsName name)
    (present : names ≠ []) (isFile : fs.isFile (ofNames true names) = true) :
    ∃ file : FileTree, fs.root.find? names = some file ∧ file.IsFile := by
  rw [FileSystem.isFile] at isFile
  split at isFile
  · rename_i found
    exact ⟨_, find?_of_lookup? named present found, trivial⟩
  · rename_i found
    exact ⟨_, find?_of_lookup? named present found, trivial⟩
  · cases isFile

end FileSystem

/-! ## Located packages -/

namespace Package

theorem isName_manifestFile : IsName manifestFile := by decide

theorem join_manifestFile {names : List String} (named : ∀ name ∈ names, IsName name) :
    (ofNames true names).join manifestFile = ofNames true (names ++ [manifestFile]) := by
  have further : ∀ name ∈ [manifestFile], IsName name :=
    List.forall_mem_singleton.mpr isName_manifestFile
  exact Path.join_ofNames named further (List.cons_ne_nil _ _)

/-- The packages below the source root are the folders with a manifest. -/
theorem mem_folders_iff (fs : FileSystem) {roots names : List String}
    (rooted : ∀ name ∈ roots, IsName name) (named : ∀ name ∈ names, IsName name) :
    ofNames true names ∈ folders fs (ofNames true roots) ↔
      (ofNames true names).startsWith (ofNames true roots) = true ∧
        hasManifest fs (ofNames true names) = true := by
  rw [folders, Path.evaluated_ofNames rooted]
  constructor
  · intro among
    split at among
    · obtain ⟨listed, manifest⟩ := List.mem_filter.mp among
      obtain ⟨found, inTree, same⟩ := List.mem_map.mp listed
      obtain ⟨more, rfl⟩ := FileTree.prefix_of_mem_foldersWith _ inTree
      rw [← same]
      exact ⟨Path.startsWith_ofNames_append rooted more, same ▸ manifest⟩
    · cases among
  · rintro ⟨below, manifest⟩
    obtain ⟨more, rfl⟩ := (startsWith_ofNames_iff rooted named).mp below
    have further : ∀ name ∈ (roots ++ more) ++ [manifestFile], IsName name :=
      List.forall_mem_append.mpr ⟨named, List.forall_mem_singleton.mpr isName_manifestFile⟩
    have stands := manifest
    rw [hasManifest, join_manifestFile named] at stands
    obtain ⟨file, found, isFile⟩ := FileSystem.exists_of_isFile further (by simp) stands
    rw [List.append_assoc, FileTree.find?_append] at found
    obtain ⟨tree, atRoot, below⟩ := Option.bind_eq_some_iff.mp found
    rw [atRoot]
    exact List.mem_filter.mpr
      ⟨List.mem_map_of_mem (FileTree.mem_foldersWith below isFile roots), manifest⟩

/-- The folder of an import path is written from the names that it leads to. -/
theorem folderOf_eq {sourceRoot : Path} (absolute : sourceRoot.isAbsolute = true)
    (path : ImportPath) :
    folderOf sourceRoot path = ofNames true (sourceRoot.join path).evaluated :=
  Path.normalize_eq_ofNames (Path.isAbsolute_join absolute path)

/-- The folder of the import path lies below the source root and has a manifest. -/
def isLocated (fs : FileSystem) (sourceRoot : Path) (path : ImportPath) : Bool :=
  (folderOf sourceRoot path).startsWith sourceRoot && hasManifest fs (folderOf sourceRoot path)

theorem folderOf_mem_folders_iff {fs : FileSystem} {sourceRoot : Path}
    (canonical : sourceRoot.IsCanonical) {path : ImportPath} :
    folderOf sourceRoot path ∈ folders fs sourceRoot ↔ isLocated fs sourceRoot path = true := by
  have rooted := Path.isName_of_mem_evaluated canonical.absolute
  have named := Path.isName_of_mem_evaluated (Path.isAbsolute_join canonical.absolute path)
  have listed := mem_folders_iff fs rooted named
  rw [← canonical.eq_ofNames, ← folderOf_eq canonical.absolute] at listed
  rw [isLocated, Bool.and_eq_true, listed]

end Package

theorem Table.get?_map_text {α : Type} (folders : List Path) (value : Path → α) (folder : Path) :
    Table.get? (folders.map fun other => (other.text, value other)) folder.text =
      if folder ∈ folders then some (value folder) else none := by
  induction folders with
  | nil => rfl
  | cons first folders ih =>
      rw [List.map_cons, get?]
      by_cases same : first = folder
      · subst same
        simp
      · have texts : first.text ≠ folder.text := fun texts => same (congrArg Path.mk texts)
        rw [if_neg texts, ih]
        simp [Ne.symm same]

/-- The answer for an import path is decided by its folder. -/
theorem Loader.settled_ofPackages {fs : FileSystem} {sourceRoot : Path}
    (canonical : sourceRoot.IsCanonical) (root path : ImportPath) :
    ((Loader.ofPackages fs sourceRoot root).history path).settled =
      if Package.isLocated fs sourceRoot path then
        Package.answer fs sourceRoot (Package.folderOf sourceRoot path)
      else .notLocated := by
  have looked := Table.get?_map_text (Package.folders fs sourceRoot)
    (Package.answer fs sourceRoot) (Package.folderOf sourceRoot path)
  have settled : ((Loader.ofPackages fs sourceRoot root).history path).settled =
      (Table.get? ((Package.folders fs sourceRoot).map fun folder => (folder.text,
        Package.answer fs sourceRoot folder)) (Package.folderOf sourceRoot path).text).getD
          .notLocated := rfl
  rw [settled, looked]
  simp only [Package.folderOf_mem_folders_iff canonical]
  split <;> rfl

theorem Loader.answer_ofPackages_eq {fs : FileSystem} {sourceRoot : Path}
    (canonical : sourceRoot.IsCanonical) (root path : ImportPath) (past : Nat) :
    (Loader.ofPackages fs sourceRoot root).answer path past =
      if path ∈ (Loader.ofPackages fs sourceRoot root).paths ∧
          Package.isLocated fs sourceRoot path = true then
        Package.answer fs sourceRoot (Package.folderOf sourceRoot path)
      else .notLocated := by
  have constant : ((Loader.ofPackages fs sourceRoot root).history path).answer past =
      ((Loader.ofPackages fs sourceRoot root).history path).settled := List.getD_nil
  rw [Loader.answer, constant, Loader.settled_ofPackages canonical]
  by_cases known : path ∈ (Loader.ofPackages fs sourceRoot root).paths
  · simp [known]
  · simp [known]

/-! ## Folders and their import paths -/

section Spellings

variable {sourceRoot : Path} (canonical : sourceRoot.IsCanonical)

include canonical

theorem importPath?_normalize {spelled : Path} (absolute : spelled.isAbsolute = true)
    {path : ImportPath} :
    importPath? sourceRoot spelled.normalize = some path ↔
      ∃ more, more ≠ [] ∧ spelled.evaluated = sourceRoot.evaluated ++ more ∧
        path = "/".intercalate more := by
  have written := importPath?_ofNames (Path.isName_of_mem_evaluated canonical.absolute)
    (Path.isName_of_mem_evaluated absolute) path
  rwa [← canonical.eq_ofNames, ← Path.normalize_eq_ofNames absolute] at written

/-- The folders that have an import path are those strictly below the source root. -/
theorem isSome_importPath?_normalize {spelled : Path} (absolute : spelled.isAbsolute = true) :
    (importPath? sourceRoot spelled.normalize).isSome = true ↔
      ∃ more, more ≠ [] ∧ spelled.evaluated = sourceRoot.evaluated ++ more := by
  rw [Option.isSome_iff_exists]
  constructor
  · rintro ⟨path, given⟩
    obtain ⟨more, present, names, _⟩ := (importPath?_normalize canonical absolute).mp given
    exact ⟨more, present, names⟩
  · rintro ⟨more, present, names⟩
    exact ⟨_, (importPath?_normalize canonical absolute).mpr ⟨more, present, names, rfl⟩⟩

/-- A folder with an import path is the folder of this path. -/
theorem folderOf_of_importPath? {spelled : Path} (absolute : spelled.isAbsolute = true)
    {path : ImportPath} (given : importPath? sourceRoot spelled.normalize = some path) :
    Package.folderOf sourceRoot path = spelled.normalize := by
  obtain ⟨more, present, names, rfl⟩ := (importPath?_normalize canonical absolute).mp given
  have named := Path.isName_of_mem_evaluated absolute
  rw [names] at named
  have joined := Path.join_ofNames (Path.isName_of_mem_evaluated canonical.absolute)
    (fun name among => named name (List.mem_append_right _ among)) present
  rw [← canonical.eq_ofNames] at joined
  rw [Package.folderOf, joined, Path.normalize_ofNames named,
    Path.normalize_eq_ofNames absolute, names]

/-- Spellings with one import path lead to the same names, and the other way round. -/
theorem importPath?_normalize_iff_leadsTo {spelled other : Path}
    (absolute : spelled.isAbsolute = true) (otherAbsolute : other.isAbsolute = true)
    {path : ImportPath} (given : importPath? sourceRoot spelled.normalize = some path) :
    importPath? sourceRoot other.normalize = some path ↔ other.LeadsTo spelled.evaluated := by
  rw [Path.leadsTo_iff otherAbsolute]
  constructor
  · intro otherGiven
    -- both folders are that of the import path
    have same : ofNames true spelled.evaluated = ofNames true other.evaluated := by
      rw [← Path.normalize_eq_ofNames absolute, ← Path.normalize_eq_ofNames otherAbsolute,
        ← folderOf_of_importPath? canonical absolute given,
        folderOf_of_importPath? canonical otherAbsolute otherGiven]
    rw [← Path.evaluated_ofNames (Path.isName_of_mem_evaluated absolute), same,
      Path.evaluated_ofNames (Path.isName_of_mem_evaluated otherAbsolute)]
  · intro names
    rw [Path.normalize_eq_ofNames otherAbsolute, ← names, ← Path.normalize_eq_ofNames absolute]
    exact given

/-- An import path that leads out of the source root is not located. -/
theorem isLocated_eq_false_of_leads {path : ImportPath}
    (leaves : ¬ sourceRoot.evaluated <+: (sourceRoot.join path).evaluated) (fs : FileSystem) :
    Package.isLocated fs sourceRoot path = false := by
  have rooted := Path.isName_of_mem_evaluated canonical.absolute
  have named := Path.isName_of_mem_evaluated (Path.isAbsolute_join canonical.absolute path)
  have below := startsWith_ofNames_iff rooted named
  rw [← canonical.eq_ofNames, ← Package.folderOf_eq canonical.absolute] at below
  rw [Package.isLocated, Bool.eq_false_iff.mpr (mt below.mp leaves), Bool.false_and]

end Spellings

/-- However the path of a dependency is spelled, its folder has no `.` and `..`, and normalizing it
again changes nothing. It is written from the only names that the spelling can be simplified to. It
has an import path if it lies strictly below the source root, and is then the folder of this import
path. So spellings have the same import path if they lead to the same names. An import path that
leads out of the source root is not located, whatever the files are. -/
theorem import_path_identifies_folder (sourceRoot base : Path) (canonical : sourceRoot.IsCanonical)
    (below : base.startsWith sourceRoot = true) (path : String) :
    let spelled := base.join path
    let folder := spelled.normalize
    (∀ component ∈ folder.components, component ≠ .current ∧ component ≠ .parent) ∧
    folder.normalize = folder ∧
    ∃ roots names : List String,
      (∀ others, sourceRoot.LeadsTo others ↔ others = roots) ∧
      (∀ others, spelled.LeadsTo others ↔ others = names) ∧
      folder = ofNames true names ∧
      ((importPath? sourceRoot folder).isSome = true ↔ ∃ more, more ≠ [] ∧ names = roots ++ more) ∧
      (∀ import_, importPath? sourceRoot folder = some import_ →
        Package.folderOf sourceRoot import_ = folder ∧
        ∀ (base' : Path) (path' : String), base'.startsWith sourceRoot = true →
          (importPath? sourceRoot (base'.join path').normalize = some import_ ↔
            (base'.join path').LeadsTo names)) ∧
      ∀ import_, (∀ others, (sourceRoot.join import_).LeadsTo others → ¬ roots <+: others) →
        ∀ fs root past,
          (Loader.ofPackages fs sourceRoot root).answer import_ past = .notLocated := by
  intro spelled folder
  have absolute_join : ∀ {base' : Path} (path' : String), base'.startsWith sourceRoot = true →
      (base'.join path').isAbsolute = true := fun path' below' =>
    Path.isAbsolute_join (Path.isAbsolute_of_startsWith canonical.absolute below') path'
  have absolute := absolute_join path below
  have named := Path.isName_of_mem_evaluated absolute
  have written : folder = ofNames true spelled.evaluated := Path.normalize_eq_ofNames absolute
  refine ⟨fun component among => ?_, ?_, sourceRoot.evaluated, spelled.evaluated,
    fun _ => Path.leadsTo_iff canonical.absolute, fun _ => Path.leadsTo_iff absolute, written,
    isSome_importPath?_normalize canonical absolute, fun import_ given =>
      ⟨folderOf_of_importPath? canonical absolute given, fun base' path' below' =>
        importPath?_normalize_iff_leadsTo canonical absolute (absolute_join path' below') given⟩,
    fun import_ leaves fs root past => ?_⟩
  · rw [written, Path.components_ofNames named] at among
    rcases List.mem_cons.mp among with rfl | inNames
    · exact ⟨nofun, nofun⟩
    · obtain ⟨name, _, rfl⟩ := List.mem_map.mp inNames
      exact ⟨nofun, nofun⟩
  · rw [written, Path.normalize_ofNames named]
  · have out := isLocated_eq_false_of_leads canonical
      (leaves _ (Path.leadsTo_evaluated (Path.isAbsolute_join canonical.absolute import_))) fs
    rw [Loader.answer_ofPackages_eq canonical, if_neg]
    rintro ⟨_, located⟩
    rw [out] at located
    cases located

/-- Two spellings of a folder next to the package, and one that leads out of the source root. -/
theorem import_path_identifies_folder_beside :
    Path.IsCanonical ⟨"/r"⟩ ∧ Path.startsWith ⟨"/r/app"⟩ ⟨"/r"⟩ = true ∧
    importPath? ⟨"/r"⟩ (Path.join ⟨"/r/app"⟩ "..//lib/./x/../core").normalize = some "lib/core" ∧
    Package.folderOf ⟨"/r"⟩ "lib/core" = ⟨"/r/lib/core"⟩ ∧
    Path.LeadsTo ⟨"/r/app/../../../r/lib/core/"⟩ ["r", "lib", "core"] ∧
    ∀ fs, (Loader.ofPackages fs ⟨"/r"⟩ "app").answer "../lib" 0 = .notLocated := by
  have canonical : Path.IsCanonical ⟨"/r"⟩ := ⟨by decide, by decide⟩
  have below : Path.startsWith ⟨"/r/app"⟩ ⟨"/r"⟩ = true := by decide
  have given : importPath? ⟨"/r"⟩ (Path.join ⟨"/r/app"⟩ "..//lib/./x/../core").normalize =
      some "lib/core" := by decide
  obtain ⟨_, _, roots, names, leadsRoot, leads, _, _, identifies, leaves⟩ :=
    import_path_identifies_folder ⟨"/r"⟩ ⟨"/r/app"⟩ canonical below "..//lib/./x/../core"
  have rootNames : roots = ["r"] :=
    ((leadsRoot _).mp (Path.leadsTo_evaluated canonical.absolute)).symm.trans (by decide)
  have folderNames : names = ["r", "lib", "core"] :=
    ((leads _).mp (Path.leadsTo_evaluated (by decide))).symm.trans (by decide)
  obtain ⟨folder, spellings⟩ := identifies _ given
  refine ⟨canonical, below, given, folder.trans (by decide), ?_, fun fs => ?_⟩
  · rw [← folderNames]
    exact (spellings ⟨"/r/app"⟩ "../../../r/lib/core/" below).mp (by decide)
  · refine leaves "../lib" (fun others leads => ?_) fs "app" 0
    rw [rootNames, (Path.leadsTo_iff (by decide)).mp leads]
    decide

end ApiDocs
