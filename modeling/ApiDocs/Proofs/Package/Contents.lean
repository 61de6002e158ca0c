import ApiDocs.Package
import ApiDocs.Proofs.Package.Uses
import ApiDocs.Proofs.UnitGraph.Closure

/-!
# What a package is read from

A group of a package comes from the manifest and the files of one target. `Contents` keeps these
together and `Contents.Held` says where they stand in the file system, so that what is known about
a group can be said about its files. Every group that a package is read as comes from contents that
its folder holds (`read_ends`), and so does every unit of a graph that is loaded from packages
(`exists_contents`).
-/

namespace ApiDocs

/-- Each result of a step that is taken for all elements comes from one of them. -/
theorem Ends.mapM {σ α β : Type} {step : α → Stepping σ β} (made : α → β → Prop)
    (ends : ∀ x state, Ends (step x state) (fun y _ => made x y) fun _ _ => True) (xs : List α)
    (state : σ) :
    Ends (xs.mapM step state) (fun ys _ => ∀ y ∈ ys, ∃ x ∈ xs, made x y) fun _ _ => True := by
  induction xs generalizing state with
  | nil =>
      rw [List.mapM_nil]
      exact Ends.pure nofun
  | cons x xs ih =>
      rw [List.mapM_cons]
      refine Ends.bind ((ends x state).mono (fun y left first => ?_) fun _ _ _ => trivial)
      refine Ends.bind ((ih left).mono (fun ys _ rest => ?_) fun _ _ _ => trivial)
      refine Ends.pure fun z among => ?_
      rcases List.mem_cons.mp among with rfl | later
      · exact ⟨x, List.mem_cons_self, first⟩
      · obtain ⟨x', known, holds⟩ := rest z later
        exact ⟨x', List.mem_cons_of_mem _ known, holds⟩

namespace Package

/-- What a group of a package is read from: the dependencies and the files of a target. -/
structure Contents where
  name : String
  kind : TargetKind
  dependencies : List ResolvedDependency
  files : List SourceFile

namespace Contents

/-- The dependencies by name. -/
def crates (contents : Contents) (sourceRoot : Path) : Table ImportPath :=
  Table.ofList (contents.dependencies.map fun d => (d.name, d.importPath sourceRoot))

/-- The group that is read from the contents. -/
def group (contents : Contents) (sourceRoot : Path) : DeclGroup :=
  let group := DeclGroup.ofFiles contents.name contents.kind (contents.crates sourceRoot)
    contents.files
  { group with imports := contents.dependencies.map (·.toImport sourceRoot) ++ group.imports }

/-- The contents are those of a target of the package in the folder. -/
def Held (fs : FileSystem) (sourceRoot folder : Path) (contents : Contents) : Prop :=
  ∃ manifest workspace? targets,
    Manifest.load fs (folder.join manifestFile) = .ok manifest ∧
    manifest.libraryName? = some contents.name ∧
    Workspace.enclosing? fs sourceRoot folder = .ok workspace? ∧
    contents.dependencies = manifest.resolved folder workspace? ∧
    Target.scan fs folder manifest.libraryPath? = .ok targets ∧
    ∃ target ∈ targets, contents.kind = target.kind ∧
      ∃ notices left, moduleFiles fs target.file notices = (.ok contents.files, left)

end Contents

/-- All groups of a package are read from contents that its folder holds. -/
theorem read_ends (fs : FileSystem) (sourceRoot folder : Path) (notices : List Notice) :
    Ends (read fs sourceRoot folder notices)
      (fun groups _ => ∀ group ∈ groups, ∃ contents : Contents,
        contents.Held fs sourceRoot folder ∧ group = contents.group sourceRoot)
      fun _ _ => True := by
  rw [read]
  cases manifest : Manifest.load fs (folder.join manifestFile) with
  | error failure => exact Ends.bind (Ends.throw trivial)
  | ok manifest' =>
      refine Ends.bind (Ends.pure ?_)
      cases named : manifest'.libraryName? with
      | none => exact Ends.pure nofun
      | some name =>
          dsimp only
          cases enclosing : Workspace.enclosing? fs sourceRoot folder with
          | error failure => exact Ends.bind (Ends.throw trivial)
          | ok workspace? =>
              refine Ends.bind (Ends.pure ?_)
              cases scanned : Target.scan fs folder manifest'.libraryPath? with
              | error failure => exact Ends.bind (Ends.throw trivial)
              | ok targets =>
                  refine Ends.bind (Ends.pure ?_)
                  let dependencies := manifest'.resolved folder workspace?
                  refine (Ends.mapM (fun target group => ∃ files notices left,
                    moduleFiles fs target.file notices = (.ok files, left) ∧
                    group = (Contents.mk name target.kind dependencies files).group sourceRoot)
                    (fun target state => ?_) targets _).mono ?_ fun _ _ _ => trivial
                  · -- kept closed, since the depth it may go to is a large number
                    generalize moduleFiles fs target.file = reading
                    refine Ends.bind (Ends.of_cases (fun files left ran => ?_) fun _ _ _ => trivial)
                    exact Ends.bind (Ends.modify (Ends.pure ⟨files, state, left, ran, rfl⟩))
                  · intro groups _ made group among
                    obtain ⟨target, listed, files, notices, left, ran, rfl⟩ := made group among
                    exact ⟨⟨name, target.kind, dependencies, files⟩,
                      ⟨manifest', workspace?, targets, manifest, named, enclosing, rfl, scanned,
                        target, listed, rfl, notices, left, ran⟩, rfl⟩

theorem groups_answer (fs : FileSystem) (sourceRoot folder : Path) :
    (answer fs sourceRoot folder).groups = (read fs sourceRoot folder []).1.map some := by
  rw [answer]
  generalize read fs sourceRoot folder = reading
  rfl

/-- The answer for a path is what its folder holds. -/
theorem answer_ofPackages {fs : FileSystem} {sourceRoot : Path} {root path : ImportPath}
    {past : Nat} {groups : List DeclGroup}
    (given : ((Loader.ofPackages fs sourceRoot root).answer path past).groups = .ok (some groups)) :
    ∃ left, read fs sourceRoot (folderOf sourceRoot path) [] = (.ok groups, left) := by
  rw [Loader.answer] at given
  split at given
  · have settled : ((Loader.ofPackages fs sourceRoot root).history path).answer past =
        (Table.get? ((folders fs sourceRoot).map fun folder => (folder.text, answer fs sourceRoot
          folder)) (folderOf sourceRoot path).text).getD .notLocated := by
      rw [History.answer]
      exact List.getD_nil
    rw [settled] at given
    cases listed : Table.get? ((folders fs sourceRoot).map fun folder => (folder.text,
        answer fs sourceRoot folder)) (folderOf sourceRoot path).text with
    | none =>
        rw [listed] at given
        cases given
    | some found =>
        rw [listed] at given
        obtain ⟨folder, _, same⟩ := List.mem_map.mp (Table.mem_of_get? listed)
        obtain ⟨text, rfl⟩ := Prod.mk.inj same
        have here : folder = folderOf sourceRoot path := congrArg Path.mk text
        subst here
        rw [Option.getD_some, groups_answer] at given
        cases ran : read fs sourceRoot (folderOf sourceRoot path) [] with
        | mk result left =>
            rw [ran] at given
            cases result with
            | error failure => cases given
            | ok groups' =>
                cases given
                exact ⟨left, rfl⟩
  · cases given

end Package

theorem Loader.unchanging_ofPackages (fs : FileSystem) (sourceRoot : Path) (root : ImportPath) :
    (Loader.ofPackages fs sourceRoot root).Unchanging := by
  intro path past
  rw [Loader.answer, Loader.answer]
  split
  · rw [History.answer, History.answer]
    exact List.getD_nil.trans List.getD_nil.symm
  · rfl

/-- A unit that is located in packages is read from contents that its folder holds. -/
theorem exists_contents {fs : FileSystem} {sourceRoot : Path} {root path : ImportPath}
    {groups : List DeclGroup} {group : DeclGroup} {past : Nat}
    (given : ((Loader.ofPackages fs sourceRoot root).answer path past).groups = .ok (some groups))
    (selected : selectGroup groups = some group) :
    ∃ contents : Package.Contents,
      contents.Held fs sourceRoot (Package.folderOf sourceRoot path) ∧
      group = contents.group sourceRoot := by
  obtain ⟨left, ran⟩ := Package.answer_ofPackages given
  exact (Package.read_ends fs sourceRoot _ []).ok ran group (Scope.mem_of_selectGroup selected)

end ApiDocs
