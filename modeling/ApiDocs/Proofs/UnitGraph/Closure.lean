import ApiDocs.Proofs.UnitGraph.Exploration
import ApiDocs.Proofs.UnitGraph.Imports

/-!
# Loaded graphs

A loaded graph holds the units that can be reached from the root by imports that bind a name, over
units that are located and not ignored (`Reached`), and nothing else. A load fails with the failure
of the first path in breadth-first order that fails (`Fails`). `load_reaches` says both, with the
imports that each unit is listed with.
-/

namespace ApiDocs

/-- Only units that consist of tests have no group that stands for them. -/
theorem selectGroup_eq_none_iff {groups : List DeclGroup} :
    selectGroup groups = none ↔ ∀ group ∈ groups, group.kind = .test := by
  have stays : ∀ (rest : List DeclGroup) (start : Option DeclGroup),
      rest.foldl preferGroup start = none ↔
        start = none ∧ ∀ group ∈ rest, group.kind = .test := by
    intro rest
    induction rest with
    | nil => exact fun start => ⟨fun none => ⟨none, nofun⟩, fun none => none.1⟩
    | cons first rest ih =>
        intro start
        have taken : preferGroup start first = none ↔ start = none ∧ first.kind = .test := by
          rw [preferGroup.eq_def]
          by_cases test : first.kind = .test
          · simp only [test, if_true, and_true]
          · rw [if_neg test]
            cases start with
            | none => exact ⟨nofun, fun ends => absurd ends.2 test⟩
            | some current =>
                refine ⟨fun ends => ?_, fun ends => nomatch ends.1⟩
                dsimp only at ends
                split at ends <;> cases ends
        rw [List.foldl_cons, ih, taken, List.forall_mem_cons, and_assoc]
  exact (stays groups none).trans ⟨fun ends => ends.2, fun tests => ⟨rfl, tests⟩⟩

namespace UnitGraph

/-! ## Gathered units -/

section Gathered

variable {find : ImportPath → Except Failure (Option DeclGroup)}

/-- The first unit that fails decides how the collection of units fails. -/
theorem gather_eq_error_iff {units : Table UnitInfo} {paths : List ImportPath} {failure : Failure} :
    gather find units paths = .error failure ↔
      ∃ before path after, paths = before ++ path :: after ∧
        (∀ other ∈ before, ∃ found, find other = .ok found) ∧ find path = .error failure := by
  induction paths generalizing units with
  | nil =>
      constructor
      · intro fails
        cases fails
      · rintro ⟨before, path, after, split, _⟩
        cases before <;> cases split
  | cons first paths ih =>
      rw [gather]
      cases here : find first with
      | error failed =>
          constructor
          · intro fails
            cases fails
            exact ⟨[], first, paths, rfl, List.forall_mem_nil _, here⟩
          · rintro ⟨_ | ⟨other, before⟩, path, after, split, succeed, fails⟩
            · cases split
              exact congrArg _ (Except.error.inj (here.symm.trans fails))
            · cases split
              obtain ⟨found, given⟩ := succeed first List.mem_cons_self
              cases here.symm.trans given
      | ok found =>
          dsimp only
          rw [ih]
          constructor
          · rintro ⟨before, path, after, rfl, succeed, fails⟩
            exact ⟨first :: before, path, after, rfl,
              List.forall_mem_cons.mpr ⟨⟨found, here⟩, succeed⟩, fails⟩
          · rintro ⟨_ | ⟨other, before⟩, path, after, split, succeed, fails⟩
            · cases split
              cases here.symm.trans fails
            · cases split
              exact ⟨before, path, after, rfl, fun other among =>
                succeed other (List.mem_cons_of_mem _ among), fails⟩

/-- Units that are what is found at their paths. -/
def Faithful (find : ImportPath → Except Failure (Option DeclGroup)) (units : Table UnitInfo) :
    Prop :=
  ∀ path unit, units.get? path = some unit →
    ∃ group, find path = .ok (some group) ∧ unit = unitOf path group

theorem get?_addFound {units : Table UnitInfo} {path : ImportPath} {found : Option DeclGroup}
    (faithful : Faithful find units) (here : find path = .ok found) (other : ImportPath)
    (unit : UnitInfo) :
    (addFound units path found).get? other = some unit ↔ units.get? other = some unit ∨
      other = path ∧ ∃ group, find other = .ok (some group) ∧ unit = unitOf other group := by
  cases found with
  | none =>
      refine ⟨Or.inl, fun known => known.elim id ?_⟩
      rintro ⟨rfl, group, given, _⟩
      cases here.symm.trans given
  | some group =>
      rw [addFound, Table.get?_insert]
      by_cases same : path = other
      · subst same
        rw [if_pos rfl, Option.some.injEq]
        constructor
        · exact fun made => Or.inr ⟨rfl, group, here, made.symm⟩
        · intro known
          have listed : ∃ group, find path = .ok (some group) ∧ unit = unitOf path group :=
            known.elim (faithful path unit) fun new => new.2
          obtain ⟨group', given, rfl⟩ := listed
          cases here.symm.trans given
          rfl
      · rw [if_neg same]
        exact ⟨Or.inl, fun known => known.resolve_right fun new => same new.1.symm⟩

/-- The collected units are those that were there and those that are found at the paths. -/
theorem get?_of_gather {units gathered : Table UnitInfo} {paths : List ImportPath}
    (faithful : Faithful find units) (done : gather find units paths = .ok gathered)
    (path : ImportPath) (unit : UnitInfo) :
    gathered.get? path = some unit ↔ units.get? path = some unit ∨
      path ∈ paths ∧ ∃ group, find path = .ok (some group) ∧ unit = unitOf path group := by
  induction paths generalizing units with
  | nil =>
      cases done
      exact ⟨Or.inl, fun known => known.resolve_right fun new => nomatch new.1⟩
  | cons first paths ih =>
      rw [gather] at done
      cases here : find first with
      | error failure =>
          rw [here] at done
          cases done
      | ok found =>
          rw [here] at done
          have still : Faithful find (addFound units first found) := fun other unit known =>
            ((get?_addFound faithful here other unit).mp known).elim (faithful other unit)
              fun new => new.2
          rw [ih still done, get?_addFound faithful here, List.mem_cons, or_and_right, or_assoc]

theorem ascending_gather {units gathered : Table UnitInfo} {paths : List ImportPath}
    (ascending : units.Ascending) (done : gather find units paths = .ok gathered) :
    gathered.Ascending := by
  induction paths generalizing units with
  | nil =>
      cases done
      exact ascending
  | cons first paths ih =>
      rw [gather] at done
      split at done
      · cases done
      · rename_i found _
        refine ih ?_ done
        cases found with
        | none => exact ascending
        | some group => exact ascending.insert _ _

end Gathered

/-! ## Reached units -/

variable (loader : Loader) (ignore : List String) (past : List ImportPath)

/-- The path is not ignored, and its next load gives a unit that the group stands for. -/
def Located (path : ImportPath) (group : DeclGroup) : Prop :=
  ¬ Ignored ignore path ∧ ∃ groups,
    (loader.answer path (past.count path)).groups = .ok (some groups) ∧
    selectGroup groups = some group

/-- The path is not ignored, and its next load fails or gives a unit with tests only. -/
inductive Fails (path : ImportPath) : Failure → Prop
  | refused {failure : Failure} : ¬ Ignored ignore path →
    (loader.answer path (past.count path)).groups = .error failure → Fails path failure
  | unusable {groups : List DeclGroup} : ¬ Ignored ignore path →
    (loader.answer path (past.count path)).groups = .ok (some groups) →
    (∀ group ∈ groups, group.kind = .test) → Fails path (.noUsableGroup path)

/-- The units that are reached from the root by imports that bind a name. -/
inductive Reached (root : ImportPath) : ImportPath → DeclGroup → Prop
  | root {group : DeclGroup} : Located loader ignore past root group → Reached root root group
  | step {path : ImportPath} {group target : DeclGroup} {decl : ImportDecl} :
    Reached root path group → decl ∈ namedImports group →
    Located loader ignore past decl.path target → Reached root decl.path target

variable {loader ignore past}

theorem findAt_of_ignored {path : ImportPath} (ignored : Ignored ignore path) :
    findAt loader ignore past path = .ok none := by
  rw [findAt]
  cases by_ : ignoredBy? ignore path with
  | none => exact absurd ignored (ignoredBy?_eq_none_iff.mp by_)
  | some pattern => rfl

/-- A path that is not ignored is asked for with the answer that its earlier loads leave. -/
theorem findAt_of_not_ignored {path : ImportPath} (kept : ¬ Ignored ignore path) :
    findAt loader ignore past path =
      (loader.answer path (past.count path)).selection path := by
  rw [findAt, ignoredBy?_eq_none_iff.mpr kept]

/-- To find a group is to locate it: the path is not ignored, and its answer gives the group. -/
theorem findAt_eq_some_iff {path : ImportPath} {group : DeclGroup} :
    findAt loader ignore past path = .ok (some group) ↔ Located loader ignore past path group := by
  by_cases ignored : Ignored ignore path
  · rw [findAt_of_ignored ignored]
    exact ⟨nofun, fun located => absurd ignored located.1⟩
  · rw [findAt_of_not_ignored ignored, Answer.selection, Located]
    cases (loader.answer path (past.count path)).groups with
    | error failure =>
        constructor
        · intro selected
          cases selected
        · rintro ⟨_, _, given, _⟩
          cases given
    | ok groups =>
        cases groups with
        | none =>
            constructor
            · intro selected
              cases selected
            · rintro ⟨_, _, given, _⟩
              cases given
        | some groups =>
            dsimp only
            constructor
            · intro selected
              refine ⟨ignored, groups, rfl, ?_⟩
              cases chosen : selectGroup groups with
              | none =>
                  rw [chosen] at selected
                  cases selected
              | some _ =>
                  rw [chosen] at selected
                  cases selected
                  rfl
            · rintro ⟨_, _, given, chosen⟩
              cases given
              rw [chosen]

/-- What is found fails as the answer of the unit does. -/
theorem findAt_eq_error_iff {path : ImportPath} {failure : Failure} :
    findAt loader ignore past path = .error failure ↔ Fails loader ignore past path failure := by
  by_cases ignored : Ignored ignore path
  · rw [findAt_of_ignored ignored]
    refine ⟨nofun, fun fails => ?_⟩
    cases fails with
    | refused kept _ => exact absurd ignored kept
    | unusable kept _ _ => exact absurd ignored kept
  · rw [findAt_of_not_ignored ignored, Answer.selection]
    constructor
    · intro fails
      cases given : (loader.answer path (past.count path)).groups with
      | error failed =>
          rw [given] at fails
          cases fails
          exact .refused ignored given
      | ok groups =>
          rw [given] at fails
          cases groups with
          | none => cases fails
          | some groups =>
              dsimp only at fails
              cases chosen : selectGroup groups with
              | some _ =>
                  rw [chosen] at fails
                  cases fails
              | none =>
                  rw [chosen] at fails
                  cases fails
                  exact .unusable ignored given (selectGroup_eq_none_iff.mp chosen)
    · intro fails
      cases fails with
      | refused _ given => rw [given]
      | unusable _ given tests =>
          rw [given]
          dsimp only
          rw [selectGroup_eq_none_iff.mpr tests]

/-- A unit mentions the paths of its imports that bind a name. -/
theorem mem_mentions_iff {path other : ImportPath} :
    other ∈ mentions (findAt loader ignore past) path ↔
      ∃ group, Located loader ignore past path group ∧
        ∃ decl ∈ namedImports group, decl.path = other := by
  simp only [← findAt_eq_some_iff]
  rw [mentions]
  cases findAt loader ignore past path with
  | error failure =>
      constructor
      · intro mentioned
        cases mentioned
      · rintro ⟨_, given, _⟩
        cases given
  | ok found =>
      cases found with
      | none =>
          constructor
          · intro mentioned
            cases mentioned
          · rintro ⟨_, given, _⟩
            cases given
      | some group => simp

/-- The reached units are those that are located among the paths that are met. -/
theorem reached_iff {root path : ImportPath} {group : DeclGroup} :
    Reached loader ignore past root path group ↔
      Relation.ReflTransGen (fun p q => q ∈ mentions (findAt loader ignore past) p) root path ∧
        Located loader ignore past path group := by
  constructor
  · intro reached
    induction reached with
    | root located => exact ⟨.refl, located⟩
    | step _ named located ih =>
        exact ⟨ih.1.tail (mem_mentions_iff.mpr ⟨_, ih.2, _, named, rfl⟩), located⟩
  · rintro ⟨met, located⟩
    induction met generalizing group with
    | refl => exact .root located
    | tail _ mentioned ih =>
        obtain ⟨_, before, decl, named, rfl⟩ := mem_mentions_iff.mp mentioned
        exact .step (ih before) named located

/-! ## The bound -/

/-- All paths that answers of a loader import. -/
def supply (loader : Loader) : List ImportPath :=
  (loader.paths.flatMap fun path => (loader.answers path).flatMap (·.imports)).map (·.path)

theorem queueBound_eq (loader : Loader) : queueBound loader = (supply loader).length + 1 := by
  rw [queueBound, supply, List.length_map, Nat.add_comm]

/-- What is mentioned is among the imports of the units that can be located, so the bound is
enough. -/
theorem mem_supply_of_mem_mentions {path other : ImportPath}
    (mentioned : other ∈ mentions (findAt loader ignore past) path) : other ∈ supply loader := by
  obtain ⟨group, ⟨_, groups, given, chosen⟩, decl, named, rfl⟩ := mem_mentions_iff.mp mentioned
  have imported : decl ∈ (loader.answer path (past.count path)).imports := by
    rw [Answer.imports, Answer.groupList, given]
    exact List.mem_flatMap.mpr
      ⟨group, Scope.mem_of_selectGroup chosen, List.mem_of_mem_filter named⟩
  have known : path ∈ loader.paths := by
    by_contra unknown
    rw [Loader.answer, if_neg (by simpa using unknown)] at imported
    cases imported
  refine List.mem_map_of_mem (List.mem_flatMap.mpr ⟨path, known, ?_⟩)
  exact List.mem_flatMap.mpr ⟨_, loader.answer_mem_answers path _, imported⟩

/-! ## Loads -/

/-- Loading is exploring, with the declared names added at the end. -/
theorem load_eq (root : ImportPath) (journal : Journal) :
    load loader root ignore journal =
      ((explore loader ignore (queueBound loader) [root] [root] [] journal).1.map withDeclaredNames,
        (explore loader ignore (queueBound loader) [root] [root] [] journal).2) := by
  cases ran : explore loader ignore (queueBound loader) [root] [root] [] journal with
  | mk result left =>
      cases result with
      | error failure => exact Stepping.bind_error ran
      | ok units => exact Stepping.bind_ok ran

theorem exists_of_map_eq_ok {outcome : Except Failure (Table UnitInfo)} {graph : UnitGraph}
    (done : outcome.map withDeclaredNames = .ok graph) :
    ∃ units, outcome = .ok units ∧ withDeclaredNames units = graph := by
  cases outcome with
  | error failure => cases done
  | ok units => exact ⟨units, rfl, Except.ok.inj done⟩

/-- The unit of a group with the imports it is listed with. -/
def listed (graph : UnitGraph) (path : ImportPath) (group : DeclGroup) : UnitInfo where
  importPath := path
  name := group.name
  imports := (importedPaths (namedImports group)).map fun imported =>
    (imported, allAliases graph (namedImports group) imported)

/-- A unit that is completed lists the aliases that the graph gives its imports. -/
theorem completed_unitOf (units : Table UnitInfo) (path : ImportPath) (group : DeclGroup) :
    completed units (unitOf path group) = listed (withDeclaredNames units) path group := by
  rw [completed, unitOf, listed, importTable_eq, List.map_map]
  congr 1
  refine List.map_congr_left fun imported _ => congrArg (Prod.mk imported) ?_
  rw [addDeclaredName_eq, allAliases, map_name_withDeclaredNames]

/-- A load goes through the paths in the order of the whole walk. -/
theorem load_gathers (loader : Loader) (root : ImportPath) (ignore : List String)
    (journal : Journal) :
    let find := findAt loader ignore journal.loads
    let order := walk (mentions find) ((supply loader).length + 1) [root] [root]
    (load loader root ignore journal).1 = (gather find [] order).map withDeclaredNames ∧
      ∃ asked, (load loader root ignore journal).2.loads = journal.loads ++ asked ∧
        asked.Sublist order := by
  intro find order
  have unasked : Unasked journal.loads [root] [root] journal := fun _ _ => rfl
  obtain ⟨gathers, asked⟩ := explore_eq_gather loader ignore journal.loads (queueBound loader) []
    (Queued.root root) unasked
  rw [queueBound_eq] at gathers asked
  rw [load_eq, queueBound_eq]
  exact ⟨congrArg (Except.map withDeclaredNames) gathers, asked⟩

/-- The units of a loaded graph are those that are reached, each as it is listed. -/
theorem get?_of_load {root : ImportPath} {journal : Journal} {graph : UnitGraph}
    (done : (load loader root ignore journal).1 = .ok graph) (path : ImportPath) (unit : UnitInfo) :
    graph.get? path = some unit ↔
      ∃ group, Reached loader ignore journal.loads root path group ∧
        unit = listed graph path group := by
  obtain ⟨gathers, _⟩ := load_gathers loader root ignore journal
  rw [done] at gathers
  obtain ⟨units, gathered, rfl⟩ := exists_of_map_eq_ok gathers.symm
  have met : ∀ unit, units.get? path = some unit ↔
      ∃ group, Reached loader ignore journal.loads root path group ∧ unit = unitOf path group := by
    intro unit
    have empty : Faithful (findAt loader ignore journal.loads) [] := fun _ _ known => by cases known
    rw [get?_of_gather empty gathered]
    simp only [Table.get?, mem_walk_iff (fun _ _ => mem_supply_of_mem_mentions), findAt_eq_some_iff,
      reached_iff, reduceCtorEq, false_or, and_assoc, exists_and_left]
  rw [get?_withDeclaredNames, Option.map_eq_some_iff]
  constructor
  · rintro ⟨unit, known, rfl⟩
    obtain ⟨group, reached, rfl⟩ := (met unit).mp known
    exact ⟨group, reached, completed_unitOf units path group⟩
  · rintro ⟨group, reached, rfl⟩
    exact ⟨_, (met _).mpr ⟨group, reached, rfl⟩, completed_unitOf units path group⟩

/-- The units of a loaded graph are in ascending order. -/
theorem ascending_of_load {root : ImportPath} {journal : Journal} {graph : UnitGraph}
    (done : (load loader root ignore journal).1 = .ok graph) : graph.units.Ascending := by
  obtain ⟨gathers, _⟩ := load_gathers loader root ignore journal
  rw [done] at gathers
  obtain ⟨units, gathered, rfl⟩ := exists_of_map_eq_ok gathers.symm
  have empty : Table.Ascending ([] : Table UnitInfo) := List.Pairwise.nil
  have ascending := ascending_gather empty gathered
  rw [Table.Ascending, ← paths_withDeclaredNames] at ascending
  exact ascending

/-- A load asks for each path at most once, and its bound on the queue is never reached. The graph
it gives has exactly the reached units, each listed with its imports. It fails exactly with the
first failure in breadth-first order. -/
theorem load_reaches (loader : Loader) (root : ImportPath) (ignore : List String)
    (journal : Journal) :
    (∀ bound ≥ queueBound loader, explore loader ignore bound [root] [root] [] journal =
      explore loader ignore (queueBound loader) [root] [root] [] journal) ∧
    (∃ asked, (load loader root ignore journal).2.loads = journal.loads ++ asked ∧ asked.Nodup) ∧
    (∀ graph, (load loader root ignore journal).1 = .ok graph →
      graph.units.Ascending ∧ ∀ path unit, graph.get? path = some unit ↔
        ∃ group, Reached loader ignore journal.loads root path group ∧
          unit = listed graph path group) ∧
    ∀ failure, (load loader root ignore journal).1 = .error failure ↔
      ∃ count before path after,
        layers (mentions (findAt loader ignore journal.loads)) count [root] [root] =
          before ++ path :: after ∧
        (∀ other ∈ before, ∀ earlier, ¬ Fails loader ignore journal.loads other earlier) ∧
        Fails loader ignore journal.loads path failure := by
  have queued := Queued.root root
  have supplied := fun path other =>
    @mem_supply_of_mem_mentions loader ignore journal.loads path other
  obtain ⟨gathers, asked, loads, sublist⟩ := load_gathers loader root ignore journal
  refine ⟨fun bound le => ?_, ⟨asked, loads, sublist.nodup (queued.nodup_walk _)⟩,
    fun graph done => ⟨ascending_of_load done, get?_of_load done⟩, fun failure => ?_⟩
  · obtain ⟨more, rfl⟩ := Nat.exists_eq_add_of_le le
    refine explore_add loader ignore journal.loads _ _ queued (fun _ _ => rfl) ?_
    rw [queueBound_eq]
    exact length_walk_le supplied _
  · have fails : (load loader root ignore journal).1 = .error failure ↔
        gather (findAt loader ignore journal.loads) [] (walk (mentions
          (findAt loader ignore journal.loads)) ((supply loader).length + 1) [root] [root]) =
            .error failure := by
      rw [gathers]
      cases gather _ [] _ with
      | error failed => simp [Except.map]
      | ok units => exact ⟨nofun, nofun⟩
    have succeeds : ∀ other, (∃ found, findAt loader ignore journal.loads other = .ok found) ↔
        ∀ earlier, ¬ Fails loader ignore journal.loads other earlier := by
      intro other
      simp only [← findAt_eq_error_iff]
      cases findAt loader ignore journal.loads other with
      | error failed => exact ⟨nofun, fun never => absurd rfl (never failed)⟩
      | ok found => exact ⟨fun _ => nofun, fun _ => ⟨found, rfl⟩⟩
    rw [fails, gather_eq_error_iff]
    simp only [succeeds, findAt_eq_error_iff]
    constructor
    · rintro ⟨before, path, after, split, first, failed⟩
      obtain ⟨count, after', layered⟩ := (walk_eq_append_iff supplied).mp ⟨after, split⟩
      exact ⟨count, before, path, after', layered, first, failed⟩
    · rintro ⟨count, before, path, after, layered, first, failed⟩
      obtain ⟨after', split⟩ := (walk_eq_append_iff supplied).mpr ⟨count, after, layered⟩
      exact ⟨before, path, after', split, first, failed⟩

end UnitGraph

end ApiDocs
