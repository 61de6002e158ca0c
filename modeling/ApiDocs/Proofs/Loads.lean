import ApiDocs.Proofs.Generation
import ApiDocs.Proofs.Growth
import ApiDocs.Proofs.UnitGraph.Closure

/-!
# Which units are read

The journal records every load, so what a run reads is what it adds there (`Reads`). Three guards
keep paths away from the loader. Exploration loads no path that is ignored, comments are collected
from the units of the graph, and resolution passes over candidates that the graph does not have,
wherever the reference comes from. A definer reads nothing but what its lookups resolve, so these
guards hold for a whole generation, whether it succeeds or fails (`generate_reads_kept`).
-/

namespace ApiDocs

/-- From one journal to the other, only allowed paths are loaded. -/
def Reads (allowed : ImportPath → Prop) (journal left : Journal) : Prop :=
  ∃ read, left.loads = journal.loads ++ read ∧ ∀ path ∈ read, allowed path

namespace Reads

variable {allowed : ImportPath → Prop} {journal middle left : Journal}

theorem of_same (same : left.loads = journal.loads) : Reads allowed journal left :=
  ⟨[], by rw [same, List.append_nil], nofun⟩

theorem refl (journal : Journal) : Reads allowed journal journal := of_same rfl

/-- Loads one after the other are allowed if each of them is. -/
theorem trans (first : Reads allowed journal middle) (second : Reads allowed middle left) :
    Reads allowed journal left := by
  obtain ⟨read, loads, all⟩ := first
  obtain ⟨more, loadsMore, allMore⟩ := second
  refine ⟨read ++ more, by rw [loadsMore, loads, List.append_assoc], fun path among => ?_⟩
  rcases List.mem_append.mp among with early | late
  · exact all path early
  · exact allMore path late

end Reads

/-! ## Steps that read units -/

/-- However the step ends, it loads only allowed paths. -/
def Reading.Confined {α : Type} (allowed : ImportPath → Prop) (step : Reading α) : Prop :=
  ∀ journal, Reads allowed journal (step journal).2

namespace Reading.Confined

variable {α β : Type} {allowed : ImportPath → Prop}

theorem pure (result : α) : Confined allowed (Pure.pure result : Reading α) :=
  fun journal => .refl journal

theorem throw (failure : Failure) : Confined allowed (throw failure : Reading α) :=
  fun journal => .refl journal

theorem report (notices : List Notice) : Confined allowed (Reading.report notices) :=
  fun _ => .of_same rfl

/-- Readers one after the other are confined if each of them is. -/
theorem bind {first : Reading α} {next : α → Reading β} (begins : Confined allowed first)
    (further : ∀ result, Confined allowed (next result)) : Confined allowed (first >>= next) := by
  intro journal
  have before := begins journal
  cases ran : first journal with
  | mk result left =>
      rw [ran] at before
      cases result with
      | error failure =>
          rw [Stepping.bind_error ran]
          exact before
      | ok result =>
          rw [Stepping.bind_ok ran]
          exact before.trans (further result left)

/-- To be confined is a property that readers inherit from what they are composed of. -/
theorem law (allowed : ImportPath → Prop) :
    Law fun α (step : Reading α) => Confined allowed step :=
  ⟨pure, report, bind⟩

theorem ends {step : Reading α} (confined : Confined allowed step) (journal : Journal) :
    Ends (step journal) (fun _ left => Reads allowed journal left) fun _ left =>
      Reads allowed journal left := by
  have reads := confined journal
  refine Ends.of_cases (fun _ _ ran => ?_) fun _ _ ran => ?_
  · rwa [ran] at reads
  · rwa [ran] at reads

end Reading.Confined

open Reading (Confined)

/-- A load is recorded, whatever the answer is. -/
theorem Loader.loads_load (loader : Loader) (path : ImportPath) (journal : Journal) :
    (loader.load path journal).2.loads = journal.loads ++ [path] := by
  refine @Ends.snd _ _ _ (fun left : Journal => left.loads = journal.loads ++ [path]) ?_
  refine Ends.bind (Ends.get (Ends.bind (Ends.set ?_)))
  cases (loader.answer path (journal.loads.count path)).groups with
  | error failure => exact Ends.throw rfl
  | ok groups => exact Ends.pure rfl

section Units

variable {loader : Loader} {allowed : ImportPath → Prop} {path : ImportPath}

theorem Loader.confined_load (kept : allowed path) : Confined allowed (loader.load path) :=
  fun journal => ⟨[path], loader.loads_load path journal, List.forall_mem_singleton.mpr kept⟩

/-- Selecting the group of a unit loads that unit and no other. -/
theorem Loader.confined_loadSelected (kept : allowed path) :
    Confined allowed (loader.loadSelected path) := by
  refine .bind (confined_load kept) fun groups => ?_
  cases groups with
  | none => exact .pure _
  | some groups =>
      dsimp only
      cases selectGroup groups with
      | none => exact .throw _
      | some group => exact .pure _

/-- Exploration loads no path that is ignored. -/
theorem UnitGraph.confined_explore (loader : Loader) (ignore : List String) (bound : Nat)
    (queue seen : List ImportPath) (units : Table UnitInfo) :
    Confined (fun path => ¬ Ignored ignore path)
      (explore loader ignore bound queue seen units) := by
  induction bound generalizing queue seen units with
  | zero => exact .pure _
  | succ bound ih =>
      cases queue with
      | nil => exact .pure _
      | cons path queue =>
          rw [explore]
          cases ignored : ignoredBy? ignore path with
          | some pattern => exact .bind (.report _) fun _ => ih _ _ _
          | none =>
              refine .bind (Loader.confined_loadSelected (ignoredBy?_eq_none_iff.mp ignored))
                fun found => ?_
              cases found with
              | none => exact .bind (.report _) fun _ => ih _ _ _
              | some group => exact ih _ _ _

/-- Loading the graph asks for no path that is ignored. -/
theorem UnitGraph.confined_load (loader : Loader) (root : ImportPath) (ignore : List String) :
    Confined (fun path => ¬ Ignored ignore path) (load loader root ignore) :=
  .bind (confined_explore loader ignore _ _ _ _) fun _ => .pure _

/-- Collecting comments asks for the listed paths and no others. -/
theorem Scope.confined_commentsIn (loader : Loader) (paths : List ImportPath)
    (kept : ∀ path ∈ paths, allowed path) : Confined allowed (commentsIn loader paths) := by
  induction paths with
  | nil => exact .pure _
  | cons path paths ih =>
      refine .bind (Loader.confined_load (kept path List.mem_cons_self)) fun _ => ?_
      exact .bind (ih fun later among => kept later (List.mem_cons_of_mem _ among)) fun _ => .pure _

/-- Comments that are collected are read from each of the units, in order. -/
theorem Scope.commentsIn_ends (loader : Loader) (paths : List ImportPath) (journal : Journal) :
    Ends (commentsIn loader paths journal) (fun _ left => left.loads = journal.loads ++ paths)
      fun _ _ => True := by
  induction paths generalizing journal with
  | nil => exact Ends.pure (List.append_nil _).symm
  | cons path paths ih =>
      refine Ends.bind (Ends.of_cases (fun groups left ran => ?_) fun _ _ _ => trivial)
      have loads := loader.loads_load path journal
      rw [ran] at loads
      refine Ends.bind ((ih left).mono (fun blocks later rest => Ends.pure ?_) fun _ _ _ => trivial)
      rw [rest, loads, List.append_assoc, List.singleton_append]

end Units

/-- A candidate is loaded only if it is a unit of the graph. -/
theorem Scope.confined_resolve (scope : Scope) (referring : ImportPath) (text : String) :
    Confined (· ∈ scope.graph.paths) (scope.resolve referring text) :=
  (Confined.law _).resolve (fun _ known => Loader.confined_loadSelected known) referring text

/-! ## Definers -/

/-- An act reads nothing but units of the graph. -/
theorem Act.reads (scope : Scope) (state : Definer) (act : Act) :
    Reads (· ∈ scope.graph.paths) state.journal (act.apply scope state).journal := by
  cases act with
  | find referring text =>
      rw [apply]
      cases found : state.store.lookup scope.graph referring text with
      | some d =>
          rw [Scope.find_of_lookup found]
          exact .refl _
      | none =>
          have reads := scope.confined_resolve referring text state.journal
          cases ran : scope.resolve referring text state.journal with
          | mk answer journal =>
              rw [ran] at reads
              rw [Scope.find_of_missed found ran]
              rcases answer with failure | _ | d <;> exact reads
  | visit name => exact .refl _
  | note notices => exact .of_same rfl
  | write d => exact .refl _

/-- The acts of a definer load units of the graph only. -/
theorem Course.reads {scope : Scope} {state left : Definer} {acts : List (Definer × Act)}
    (course : Course scope state acts left) :
    Reads (· ∈ scope.graph.paths) state.journal left.journal := by
  induction course with
  | done state => exact .refl _
  | act act _ _ ih => exact (act.reads scope _).trans ih

namespace Definer

variable {scope : Scope}

theorem defineMember_leads (referring : ImportPath) (m : Member) (state : Definer) :
    Leads scope state (defineMember scope referring m state) m.Gains :=
  Ends.bind (Ends.get (Scope.targetMember_leads (Scope.defineAll_leads _) referring m state))

theorem defineEach_leads {α : Type} (unit : ImportPath) (member : α → Member)
    (withMember : α → Member → α) (parts : List α) (state : Definer) :
    Leads scope state (defineEach scope unit member withMember parts state) fun _ => True := by
  induction parts generalizing state with
  | nil => exact Leads.pure trivial
  | cons part parts ih =>
      refine Leads.bind (defineMember_leads unit (member part) state) fun _ left _ _ => ?_
      exact Leads.bind (ih left) fun _ _ _ _ => Leads.pure trivial

theorem defineOperation_leads (o : Directive.Operation) (state : Definer) :
    Leads scope state (defineOperation scope o state) fun _ => True := by
  refine Leads.bind (defineEach_leads _ _ _ _ state) fun _ left _ _ => ?_
  exact Leads.bind (defineEach_leads _ _ _ _ left) fun _ _ _ _ => Leads.pure trivial

/-- Defining operations is a run of the definer, so that it does nothing but acts. -/
theorem defineOperations_leads (operations : List Directive.Operation) (state : Definer) :
    Leads scope state (defineOperations scope operations state) fun _ => True := by
  induction operations generalizing state with
  | nil => exact Leads.pure trivial
  | cons o operations ih =>
      refine Leads.bind (defineOperation_leads o state) fun _ left _ _ => ?_
      exact Leads.bind (ih left) fun _ _ _ _ => Leads.pure trivial

end Definer

/-- The definer of a generation starts with an empty store and reads units of the graph. -/
theorem Scope.confined_defineOperations (scope : Scope) (operations : List Directive.Operation) :
    Confined (· ∈ scope.graph.paths)
      (Reading.defining (Definer.defineOperations scope operations)) := by
  intro journal
  have ran : Ran scope { journal } (Definer.defineOperations scope operations { journal }).2 :=
    (Definer.defineOperations_leads operations { journal }).ran
  obtain ⟨acts, course⟩ := ran.course
  have reads := course.reads
  cases ran : Definer.defineOperations scope operations { journal } with
  | mk result left =>
      rw [ran] at reads
      rw [Reading.defining, ran]
      cases result with
      | error failure => exact reads
      | ok operations => exact reads

/-! ## Generation -/

/-- The units of a loaded graph are not ignored. -/
theorem UnitGraph.not_ignored_of_load {loader : Loader} {root : ImportPath} {ignore : List String}
    {journal : Journal} {graph : UnitGraph}
    (loaded : (load loader root ignore journal).1 = .ok graph)
    {path : ImportPath} (known : path ∈ graph.paths) : ¬ Ignored ignore path := by
  obtain ⟨unit, given⟩ := Table.exists_get?_of_mem_keys known
  obtain ⟨group, reached, _⟩ := (get?_of_load loaded path unit).mp given
  exact (reached_iff.mp reached).2.1

/-- The journal in which the units of a generation are loaded. -/
def Configuration.started (configuration : Configuration) (journal : Journal) : Journal :=
  { journal with notices := journal.notices ++ [.loadingUnits configuration.root] }

/-- Once the units are loaded, each of them is read for its comments, and then nothing but units of
the graph. -/
theorem Contents.collect_reads {configuration : Configuration} {loader : Loader}
    {journal loaded : Journal} {graph : UnitGraph}
    (loading : UnitGraph.load loader configuration.root configuration.ignore
      (configuration.started journal) = (.ok graph, loaded)) :
    Ends (collect configuration loader journal)
      (fun _ left => ∃ middle : Journal, middle.loads = loaded.loads ++ graph.paths ∧
        Reads (· ∈ graph.paths) middle left)
      fun _ left => Reads (· ∈ graph.paths) loaded left := by
  refine Ends.bind (Ends.modify (Ends.bind ?_))
  change Ends (UnitGraph.load loader configuration.root configuration.ignore
    (configuration.started journal)) _ _
  rw [loading]
  refine Ends.bind (Ends.modify (Ends.bind ?_))
  -- the journal in which comments are read differs from `loaded` in its notices only
  have comments := Scope.commentsIn_ends loader graph.paths
    { loaded with notices := loaded.notices ++ [.loadedUnits graph.units.length] }
  have confined := Scope.confined_commentsIn loader graph.paths (fun _ known => known)
    { loaded with notices := loaded.notices ++ [.loadedUnits graph.units.length] }
  refine Ends.of_cases (fun blocks middle ran => ?_) fun failure middle ran => ?_
  · have read : middle.loads = loaded.loads ++ graph.paths := comments.ok ran
    have before : Reads (· ∈ graph.paths) loaded middle := ⟨graph.paths, read, fun _ known => known⟩
    refine (Confined.ends (.bind (.report _) fun _ =>
      .bind (Scope.confined_defineOperations ⟨graph, loader⟩ _) fun _ =>
        .bind (.report _) fun _ => .pure _) middle).mono ?_ ?_
    · exact fun _ left reads => ⟨middle, read, reads⟩
    · exact fun _ left reads => before.trans reads
  · obtain ⟨read, loads, known⟩ := confined
    change Scope.commentsIn loader graph.paths _ = _ at ran
    rw [ran] at loads
    exact ⟨read, loads, known⟩

/-- Describing what is collected reads nothing. -/
theorem generate_ends {configuration : Configuration} {loader : Loader} {journal loaded : Journal}
    {graph : UnitGraph}
    (loading : UnitGraph.load loader configuration.root configuration.ignore
      (configuration.started journal) = (.ok graph, loaded)) :
    Ends (generate configuration loader journal)
      (fun _ left => ∃ later, left.loads = loaded.loads ++ later ∧
        (∀ path ∈ later, path ∈ graph.paths) ∧ graph.paths <+: later)
      fun _ left => Reads (· ∈ graph.paths) loaded left := by
  refine Ends.bind ((Contents.collect_reads loading).mono (fun contents left reads => ?_)
    fun _ _ reads => reads)
  obtain ⟨middle, comments, read, loads, known⟩ := reads
  refine Ends.bind (Ends.modify (Ends.pure ⟨graph.paths ++ read, ?_, fun path among => ?_, ?_⟩))
  · change left.loads = _
    rw [loads, comments, List.append_assoc]
  · exact (List.mem_append.mp among).elim id (known path)
  · exact List.prefix_append _ _

/-- A generation loads no path that is ignored. If its units cannot be loaded, it ends with that.
Otherwise all that it loads afterwards are units of the graph, whether it succeeds or fails; and if
it succeeds, it begins with each of them in ascending order. -/
theorem generate_reads_kept (configuration : Configuration) (loader : Loader) (journal : Journal) :
    let loading := UnitGraph.load loader configuration.root configuration.ignore
      (configuration.started journal)
    let whole := generate configuration loader journal
    (∃ read, whole.2.loads = journal.loads ++ read ∧
      ∀ path ∈ read, ¬ UnitGraph.Ignored configuration.ignore path) ∧
    (∀ failure, loading.1 = .error failure → whole = (.error failure, loading.2)) ∧
    ∀ graph, loading.1 = .ok graph →
      ∃ later, whole.2.loads = loading.2.loads ++ later ∧ (∀ path ∈ later, path ∈ graph.paths) ∧
        ∀ document, whole.1 = .ok document → graph.paths <+: later := by
  intro loading whole
  have first : Reads (fun path => ¬ UnitGraph.Ignored configuration.ignore path) journal
      loading.2 :=
    UnitGraph.confined_load loader configuration.root configuration.ignore
      (configuration.started journal)
  have fails : ∀ failure, loading.1 = .error failure → whole = (.error failure, loading.2) := by
    intro failure failed
    have ran : loading = (.error failure, loading.2) := Prod.ext failed rfl
    have reported : Reading.report [.loadingUnits configuration.root] journal =
        (.ok (), configuration.started journal) := rfl
    have collected : Contents.collect configuration loader journal = (.error failure, loading.2) :=
      (Stepping.bind_ok reported).trans (Stepping.bind_error ran)
    exact Stepping.bind_error collected
  have goesOn : ∀ graph, loading.1 = .ok graph →
      ∃ later, whole.2.loads = loading.2.loads ++ later ∧ (∀ path ∈ later, path ∈ graph.paths) ∧
        ∀ document, whole.1 = .ok document → graph.paths <+: later := by
    intro graph succeeded
    have ends := generate_ends (Prod.ext succeeded rfl : loading = (.ok graph, loading.2))
    cases ran : whole with
    | mk result left =>
        cases result with
        | error failure =>
            obtain ⟨later, loads, known⟩ := ends.error ran
            exact ⟨later, loads, known, nofun⟩
        | ok document =>
            obtain ⟨later, loads, known, begins⟩ := ends.ok ran
            exact ⟨later, loads, known, fun _ _ => begins⟩
  refine ⟨?_, fails, goesOn⟩
  cases outcome : loading.1 with
  | error failure =>
      rw [fails failure outcome]
      exact first
  | ok graph =>
      obtain ⟨later, loads, known, _⟩ := goesOn graph outcome
      refine first.trans ⟨later, loads, fun path among => ?_⟩
      exact UnitGraph.not_ignored_of_load outcome (known path among)

end ApiDocs
