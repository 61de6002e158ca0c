import ApiDocs.Proofs.Package.ModuleWalk
import ApiDocs.Proofs.Path.Spelling

/-!
# One file under several paths

The walk over module files remembers paths by their components, and `..` counts there. So a file is
read once for each way in which its path is written: `second_spelling_read` has a file that is read
twice. What holds is that the walk ends, that no path is visited twice, and that two results which
are the same once `.` and `..` are resolved differ by such components. Where the first file lies at
a path from the root without `..`, and no declaration leads through `..`, every file is read once
(`module_files_by_spelling`).
-/

namespace ApiDocs

open Source

/-! ## What declarations say about paths -/

mutual

/-- The texts that are joined to folders for the module declarations in an item: the paths that
attributes give, and the names of modules and of their files. -/
def Source.Item.moduleTexts : Item → List String
  | ⟨attributes, kind, nested⟩ =>
    match kind with
    | .module name hasBody =>
      if isTestOnly attributes then []
      else if hasBody then name :: moduleTextsAll nested
      else
        match givenFile? attributes with
        | some given => [given]
        | none => [name, name ++ ".rs"]
    | _ => []

/-- The texts that are joined to folders for the module declarations among items. -/
def Source.Item.moduleTextsAll : List Item → List String
  | [] => []
  | item :: items => item.moduleTexts ++ moduleTextsAll items

end

/-- Nothing that is joined to a folder leads back. -/
def Onward (texts : List String) : Prop :=
  ∀ text ∈ texts, .parent ∉ (Path.mk text).components

instance (texts : List String) : Decidable (Onward texts) :=
  inferInstanceAs (Decidable (∀ text ∈ texts, .parent ∉ (Path.mk text).components))

theorem Onward.append {texts more : List String} :
    Onward (texts ++ more) ↔ Onward texts ∧ Onward more :=
  List.forall_mem_append

/-- A place with a file and a folder that are given from the root without `..`. -/
structure ModuleContext.Forward (context : ModuleContext) : Prop where
  file : context.file.Forward
  folder : context.folder.Forward

namespace ModuleLink

variable {fs : FileSystem} {context target : ModuleContext}

/-- A link that leads, if anywhere, to a place without `..`. -/
def Forward (link : ModuleLink) : Prop := ∀ target, link.context? = some target → target.Forward

/-- A path that is given and does not lead upwards leads forward. -/
theorem forward_ofGiven {given : String} (forward : context.Forward)
    (onward : .parent ∉ (Path.mk given).components) : (ofGiven fs context given).Forward := by
  have base : (context.file.parent?.getD context.folder).Forward := by
    cases lies : context.file.parent? with
    | none => exact forward.folder
    | some above => exact forward.file.parent lies
  have joined := base.join onward
  intro target leads
  rw [ofGiven] at leads
  split at leads
  · rename_i isFile
    cases leads
    obtain ⟨above, lies⟩ := FileSystem.exists_parent_of_isFile isFile
    refine ⟨joined, ?_⟩
    rw [lies]
    exact joined.parent lies
  · cases leads

/-- A name that does not lead upwards leads forward. -/
theorem forward_ofName {name : String} (forward : context.Forward)
    (onward : Onward [name, name ++ ".rs"]) : (ofName fs context name).Forward := by
  have folder := forward.folder.join (onward name (by simp))
  have flat := forward.folder.join (onward (name ++ ".rs") (by simp))
  have nested : ((context.folder.join name).join "mod.rs").Forward := folder.join (by decide)
  intro target leads
  rw [ofName] at leads
  split at leads
  · cases leads
    exact ⟨flat, folder⟩
  · split at leads
    · cases leads
      exact ⟨nested, folder⟩
    · cases leads

mutual

theorem forward_ofItem (item : Item) {context : ModuleContext} (forward : context.Forward)
    (onward : Onward item.moduleTexts) : ∀ link ∈ ofItem fs context item, link.Forward := by
  obtain ⟨attributes, kind, nested⟩ := item
  cases kind with
  | module name hasBody =>
      -- both functions ask the same questions, so each answer is carried over to `onward`
      unfold Item.moduleTexts at onward
      unfold ofItem
      dsimp only at onward ⊢
      split
      · exact List.forall_mem_nil _
      · rename_i notTest
        rw [if_neg notTest] at onward
        split
        · rename_i body
          rw [if_pos body] at onward
          obtain ⟨onName, within⟩ := List.forall_mem_cons.mp onward
          exact forward_ofItems nested ⟨forward.file, forward.folder.join onName⟩ within
        · rename_i noBody
          rw [if_neg noBody] at onward
          split
          · rename_i given told
            rw [told] at onward
            exact List.forall_mem_singleton.mpr
              (forward_ofGiven forward (onward given List.mem_cons_self))
          · rename_i told
            rw [told] at onward
            exact List.forall_mem_singleton.mpr (forward_ofName forward onward)
  | _ =>
      unfold ofItem
      exact List.forall_mem_nil _

theorem forward_ofItems (items : List Item) {context : ModuleContext} (forward : context.Forward)
    (onward : Onward (Item.moduleTextsAll items)) :
    ∀ link ∈ ofItems fs context items, link.Forward := by
  cases items with
  | nil => exact List.forall_mem_nil _
  | cons item items =>
      obtain ⟨first, rest⟩ := Onward.append.mp onward
      exact List.forall_mem_append.mpr
        ⟨forward_ofItem item forward first, forward_ofItems items forward rest⟩

end

end ModuleLink

/-! ## Runs without `..` -/

/-- The texts that are joined to folders for the modules that a file declares. -/
def SourceFile.moduleTexts (file : SourceFile) : List String :=
  Item.moduleTextsAll file.content.items

/-- Everything that was read and that is still to be visited is given without `..`. -/
structure ModuleConf.Forward (conf : ModuleConf) : Prop where
  todo : ∀ context ∈ conf.todo, context.Forward
  files : ∀ file ∈ conf.walk.files, (Path.mk file.path).Forward

namespace ModuleStep

variable {fs : FileSystem} {conf next : ModuleConf}

/-- A step of the walk keeps to files that lead forward. -/
theorem forward (step : ModuleStep fs conf next) (before : conf.Forward)
    (onward : ∀ file ∈ next.walk.files, Onward file.moduleTexts) : next.Forward := by
  cases step with
  | pass _ => exact ⟨(List.forall_mem_cons.mp before.todo).2, before.files⟩
  | @read context todo walk notices file fresh loaded =>
      obtain ⟨here, later⟩ := List.forall_mem_cons.mp before.todo
      have declared := onward file (List.mem_append_right _ List.mem_cons_self)
      constructor
      · refine List.forall_mem_append.mpr ⟨fun target among => ?_, later⟩
        obtain ⟨link, listed, leads⟩ := List.mem_filterMap.mp among
        exact ModuleLink.forward_ofItems _ here declared link listed target leads
      · refine List.forall_mem_append.mpr ⟨before.files, List.forall_mem_singleton.mpr ?_⟩
        rw [(SourceFile.of_load loaded).1]
        exact here.file

/-- A step of the walk forgets no file. -/
theorem files_subset (step : ModuleStep fs conf next) :
    conf.walk.files ⊆ next.walk.files := by
  cases step with
  | pass _ => exact List.Subset.refl _
  | read _ _ => exact List.subset_append_left _ _

/-- The first file lies in a folder, or else it could not be read. -/
theorem forward_start {file : Path} {notices : List Notice} (forward : file.Forward)
    (step : ModuleStep fs (.start file notices) next) :
    (ModuleConf.start file notices).Forward := by
  refine ⟨List.forall_mem_singleton.mpr ⟨forward, ?_⟩, List.forall_mem_nil _⟩
  cases step with
  | pass visited => cases visited
  | read _ loaded =>
      obtain ⟨_, text, read⟩ := SourceFile.of_load loaded
      obtain ⟨above, lies⟩ := FileSystem.exists_parent_of_readText? read
      change (file.parent?.getD ⟨""⟩).Forward
      rw [lies]
      exact forward.parent lies

end ModuleStep

/-- The walk keeps to files that lead forward. -/
theorem ModuleRun.forward {fs : FileSystem} {conf next : ModuleConf} (run : ModuleRun fs conf next)
    (before : conf.Forward) (onward : ∀ file ∈ next.walk.files, Onward file.moduleTexts) :
    next.Forward := by
  induction run with
  | refl => exact before
  | tail _ step kept =>
      exact step.forward (kept fun file among => onward file (step.files_subset among)) onward

/-! ## The files of a target -/

section Outcome

variable {fs : FileSystem} {file : Path} {notices left : List Notice} {files : List SourceFile}

/-- A walk that succeeds ran until no links were left. -/
theorem ModuleOutcome.exists_run (reached : ModuleOutcome fs file notices (.ok files, left)) :
    ∃ walk : ModuleWalk, ModuleRun fs (.start file notices) ⟨[], walk, left⟩ ∧
      walk.files = files := by
  generalize same : (Except.ok files, left) = outcome at reached
  cases reached with
  | files run =>
      cases same
      exact ⟨_, run, rfl⟩
  | failure _ _ => cases same

/-- No two files were read by paths with the same components. -/
theorem ModuleOutcome.nodup_components
    (reached : ModuleOutcome fs file notices (.ok files, left)) :
    (files.map SourceFile.components).Nodup := by
  obtain ⟨walk, run, rfl⟩ := reached.exists_run
  have sound := run.sound (ModuleWalk.Sound.start fs)
  rw [← List.nodup_reverse, ← sound.visited_eq]
  exact sound.nodup

theorem ModuleOutcome.forward (reached : ModuleOutcome fs file notices (.ok files, left))
    (forward : file.Forward) (onward : ∀ read ∈ files, Onward read.moduleTexts) :
    ∀ read ∈ files, (Path.mk read.path).Forward := by
  obtain ⟨walk, run, rfl⟩ := reached.exists_run
  rcases run.cases_head with same | ⟨next, step, _⟩
  · cases same
  · exact (ModuleRun.forward run (step.forward_start forward) onward).files

end Outcome

/-- The walk over module files ends: it comes to what the machine comes to, and no run of the
machine goes on forever. That it ends rests on `FileSystem.pathLimit` alone. A file that leads to
itself through `..` has another path in every round, longer by that text, under which it is read and
listed once more, until its path has as many bytes as the limit; then it counts as a module without
file, which is reported, and the walk goes on with what is left. No two files are read by paths with
the same components. Two that are the same once `.` and `..` are resolved differ by `..` or by a `.`
at the beginning; there are none if the first file is given from the root without `..` and no
declaration leads through `..`. -/
theorem module_files_by_spelling (fs : FileSystem) (file : Path) (notices : List Notice) :
    Acc (fun later earlier => ModuleStep fs earlier later) (.start file notices) ∧
      ModuleOutcome fs file notices (moduleFiles fs file notices) ∧
      ∀ files left, moduleFiles fs file notices = (.ok files, left) →
        (files.map SourceFile.components).Nodup ∧
        (files.Pairwise fun a b => (Path.mk a.path).normalize = (Path.mk b.path).normalize →
          .parent ∈ a.components ∨ .parent ∈ b.components ∨
            ¬ (.current ∈ a.components ↔ .current ∈ b.components)) ∧
        (file.Forward → (∀ read ∈ files, Onward read.moduleTexts) →
          files.Pairwise fun a b => (Path.mk a.path).normalize ≠ (Path.mk b.path).normalize) := by
  have reached := moduleFiles_outcome fs file notices
  refine ⟨acc_start fs file notices, reached, fun files left ran => ?_⟩
  rw [ran] at reached
  have distinct := reached.nodup_components
  have spelled : files.Pairwise fun a b => a.components ≠ b.components :=
    List.pairwise_map.mp distinct
  have differ : files.Pairwise fun a b =>
      (Path.mk a.path).normalize = (Path.mk b.path).normalize →
        .parent ∈ a.components ∨ .parent ∈ b.components ∨
          ¬ (.current ∈ a.components ↔ .current ∈ b.components) := by
    refine spelled.imp fun apart same => ?_
    by_contra alike
    obtain ⟨first, second, current⟩ := by simpa only [not_or, not_not] using alike
    exact apart (Path.components_eq_of_normalize_eq same first second current)
  refine ⟨distinct, differ, fun forward onward => ?_⟩
  have forwards := reached.forward forward onward
  refine differ.imp_of_mem fun firstIn secondIn clash same => ?_
  have first := forwards _ firstIn
  have second := forwards _ secondIn
  rcases clash same with back | back | current
  · exact first.onward back
  · exact second.onward back
  · exact current (iff_of_false first.not_current second.not_current)

/-- A folder with a file that declares two modules, the second by a path, and a file for them. -/
def twoModules (given : String) : FileSystem where
  root := .folder [("r", .folder [
    ("lib.rs", .text ("mod a;#[path=\"" ++ given ++ "\"]mod b;")), ("a.rs", .text "")])]

set_option maxRecDepth 100000 in
/-- With a `.` in it the path is visited already. -/
theorem module_files_by_spelling_visited :
    (moduleFiles (twoModules "./a.rs") ⟨"/r/lib.rs"⟩ []).1.toOption.map (·.map SourceFile.path) =
        some ["/r/lib.rs", "/r/a.rs"] ∧
      ((moduleFiles (twoModules "./a.rs") ⟨"/r/lib.rs"⟩ []).1.toOption.getD []).Pairwise fun a b =>
        (Path.mk a.path).normalize ≠ (Path.mk b.path).normalize := by
  have run : (moduleFiles (twoModules "./a.rs") ⟨"/r/lib.rs"⟩ []).1.toOption.isSome = true ∧
      (moduleFiles (twoModules "./a.rs") ⟨"/r/lib.rs"⟩ []).1.toOption.map
        (·.map SourceFile.path) = some ["/r/lib.rs", "/r/a.rs"] ∧
      ∀ read ∈ (moduleFiles (twoModules "./a.rs") ⟨"/r/lib.rs"⟩ []).1.toOption.getD [],
        Onward read.moduleTexts := by
    decide +kernel
  obtain ⟨succeeds, paths, onward⟩ := run
  obtain ⟨left, ran⟩ := exists_eq_of_isSome succeeds []
  obtain ⟨_, _, results⟩ := module_files_by_spelling (twoModules "./a.rs") ⟨"/r/lib.rs"⟩ []
  exact ⟨paths, (results _ left ran).2.2 ⟨by decide, by decide⟩ onward⟩

set_option maxRecDepth 100000 in
/-- With `..` in it the path is another one, and the file is read twice. -/
theorem second_spelling_read :
    (moduleFiles (twoModules "../r/a.rs") ⟨"/r/lib.rs"⟩ []).1.toOption.map
        (·.map SourceFile.path) = some ["/r/lib.rs", "/r/a.rs", "/r/../r/a.rs"] ∧
      (Path.mk "/r/../r/a.rs").normalize = (Path.mk "/r/a.rs").normalize := by
  decide +kernel

end ApiDocs
