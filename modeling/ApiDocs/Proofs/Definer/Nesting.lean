import ApiDocs.Proofs.Definer.Trace

/-!
# Open definitions

The definitions that are open at one time form a chain: each was reached by a reference of the one
that it interrupts (`Conf.Nested`). A definition is stored as it is declared until it is closed, and
never changes after that (`Step.get?_of_closed`). So whoever meets a visited name finds either the
final form of it, or the bare declaration of a definition that refers back to the one at work
(`Conf.Nested.closed_or_refersBack`). If the calls are for one definition alone, that one is open as
long as any is (`Conf.Based`).
-/

namespace ApiDocs

/-- The names of the open definitions. -/
def Conf.openNames (conf : Conf) : List String := conf.stack.map Definition.canonical

/-- The name was visited and is no longer open. -/
def Conf.Closed (conf : Conf) (name : String) : Prop :=
  name ∈ conf.state.defined ∧ name ∉ conf.openNames

namespace Scope

variable {scope : Scope} {roots : ImportPath → String → Prop} {supply : List String}

/-- A reference of the outer definition's declaration resolves to that of the inner one. -/
def Nests (scope : Scope) (inner outer : Definition) : Prop :=
  ∃ d e, scope.Copies d inner ∧ scope.Copies e outer ∧ scope.Refers e d

/-- The second definition can be reached from the first by references. -/
abbrev RefersBack (scope : Scope) : Definition → Definition → Prop :=
  Relation.ReflTransGen scope.Refers

theorem Nests.of_core {inner inner' outer outer' : Definition} (nests : scope.Nests inner outer)
    (core : inner'.core = inner.core) (coreOuter : outer'.core = outer.core) :
    scope.Nests inner' outer' := by
  obtain ⟨d, e, ⟨declared, same⟩, ⟨declaredOuter, sameOuter⟩, refers⟩ := nests
  exact ⟨d, e, ⟨declared, core.trans same⟩, ⟨declaredOuter, coreOuter.trans sameOuter⟩, refers⟩

theorem isChain_of_core {top top' : Definition} {stack : List Definition}
    (chain : (top :: stack).IsChain scope.Nests) (core : top'.core = top.core) :
    (top' :: stack).IsChain scope.Nests := by
  cases chain with
  | singleton => exact .singleton _
  | cons_cons nests rest => exact .cons_cons (nests.of_core core rfl) rest

/-- Along a chain every definition refers back to the innermost one. -/
theorem refersBack_of_isChain {top host d u : Definition} {stack : List Definition}
    (chain : (top :: stack).IsChain scope.Nests) (copiesTop : scope.Copies d top)
    (among : host ∈ top :: stack) (copies : scope.Copies u host) : scope.RefersBack u d := by
  induction stack generalizing top d with
  | nil =>
      cases List.mem_singleton.mp among
      cases copies.unique copiesTop
      exact .refl
  | cons next stack ih =>
      rcases List.mem_cons.mp among with rfl | later
      · cases copies.unique copiesTop
        exact .refl
      · cases chain with
        | cons_cons nests rest =>
            obtain ⟨inner, outer, copiesInner, copiesOuter, refers⟩ := nests
            cases copiesInner.unique copiesTop
            exact .tail (ih rest copiesOuter later) refers

end Scope

/-- How the open definitions are nested, and that what is not closed is stored as declared. -/
structure Conf.Nested (scope : Scope) (conf : Conf) : Prop where
  visited : ∀ name ∈ conf.openNames, name ∈ conf.state.defined
  once : conf.openNames.Nodup
  chain : conf.stack.IsChain scope.Nests
  waiting : ∀ name outer stack, conf.waiting = some name → conf.stack = outer :: stack →
    ∃ e, conf.state.store.get? name = some e ∧ scope.Nests e outer
  raw : ∀ name e, conf.state.store.get? name = some e → ¬ conf.Closed name →
    scope.declared e.importPath e.name = .ok (some e)

namespace Step

variable {scope : Scope} {roots : ImportPath → String → Prop} {supply : List String}
  {conf conf' : Conf}

/-- What is closed stays closed. -/
theorem closed (step : Step scope roots conf conf') {name : String} (closed : conf.Closed name) :
    conf'.Closed name := by
  obtain ⟨visited, shut⟩ := closed
  cases step with
  | read journal => exact ⟨visited, shut⟩
  | hit asks found => exact ⟨visited, shut⟩
  | miss asks missed resolves => exact ⟨visited, shut⟩
  | pass _ => exact ⟨visited, shut⟩
  | @enter stack state other d fresh known =>
      refine ⟨List.mem_cons_of_mem _ visited, fun opened => ?_⟩
      rcases List.mem_cons.mp opened with same | below
      · rw [Store.canonical_of_get? known] at same
        exact fresh (same ▸ visited)
      · exact shut below
  | absent fresh unknown => exact ⟨List.mem_cons_of_mem _ visited, shut⟩
  | skip next primitive => exact ⟨visited, shut⟩
  | merge next mergeable named visitedSource => exact ⟨visited, shut⟩
  | close done targeted => exact ⟨visited, fun below => shut (List.mem_cons_of_mem _ below)⟩

/-- What is closed is stored as it is for good. -/
theorem get?_of_closed (step : Step scope roots conf conf') {name : String} {d : Definition}
    (closed : conf.Closed name) (known : conf.state.store.get? name = some d) :
    conf'.state.store.get? name = some d := by
  cases step with
  | read journal => exact known
  | hit asks found => exact known
  | miss asks missed resolves =>
      rw [Store.get?_add_of_ne]
      · exact known
      · rintro rfl
        cases (get?_of_miss missed resolves).symm.trans known
  | pass visited => exact known
  | enter fresh stored => exact known
  | absent fresh unknown => exact known
  | skip next primitive => exact known
  | merge next mergeable named visited => exact known
  | @close host stack state members done targeted =>
      rw [Store.get?_add_of_ne]
      · exact known
      · intro same
        exact closed.2 (same ▸ List.mem_cons_self)

/-- A definition that was looked up nests in the innermost open one. -/
theorem nests_of_asks (unchanging : scope.loader.Unchanging) {outer e d : Definition}
    {stack : List Definition} {referring : ImportPath} {text : String}
    (traced : ∀ host ∈ outer :: stack, ∃ d, scope.Traces roots d host)
    (asks : Asks roots (outer :: stack) referring text) (traces : scope.Traces roots d e)
    (resolves : scope.resolved? referring text = some d) : scope.Nests e outer := by
  obtain ⟨o, tracesOuter⟩ := traced outer List.mem_cons_self
  exact ⟨d, o, traces.copies unchanging, tracesOuter.copies unchanging, referring, text,
    tracesOuter.makes_of_asks asks, resolves⟩

theorem nested (step : Step scope roots conf conf') (unchanging : scope.loader.Unchanging)
    (clear : scope.Clear roots) (sound : conf.Sound supply)
    (all : conf.All fun _ e => ∃ d, scope.Traces roots d e) (nested : conf.Nested scope) :
    conf'.Nested scope := by
  have raw : ∀ name e, conf.state.store.get? name = some e → ¬ conf'.Closed name →
      scope.declared e.importPath e.name = .ok (some e) := fun name e known unclosed =>
    nested.raw name e known fun closed => unclosed (step.closed closed)
  cases step with
  | read journal => exact ⟨nested.visited, nested.once, nested.chain, nested.waiting, raw⟩
  | @hit stack state referring text e asks found =>
      refine ⟨nested.visited, nested.once, nested.chain, fun name outer below waits top => ?_, raw⟩
      cases waits
      cases top
      obtain ⟨path, candidate, known⟩ := Scope.names_of_lookup found
      obtain ⟨d, traces⟩ := all.stored _ e known
      have resolves := traces.resolves clear (Scope.met_of_asks all.opened asks)
        ⟨path, candidate, known⟩
      refine ⟨e, Store.get?_canonical known, ?_⟩
      exact nests_of_asks unchanging all.opened asks traces resolves
  | @miss stack state referring text d journal asks missed resolves =>
      obtain ⟨resolved, traces⟩ := Scope.traces_of_resolve unchanging all.opened asks resolves
      refine ⟨nested.visited, nested.once, nested.chain, fun name outer below waits top => ?_,
        fun name e known unclosed => ?_⟩
      · cases waits
        cases top
        exact ⟨d, Store.get?_add_self state.store d,
          nests_of_asks unchanging all.opened asks traces resolved⟩
      · rw [Store.get?_add] at known
        split at known
        · cases known
          exact traces.reached.declared unchanging
        · exact raw name e known unclosed
  | pass visited => exact ⟨nested.visited, nested.once, nested.chain, nofun, raw⟩
  | @enter stack state name d fresh known =>
      have canonical := Store.canonical_of_get? known
      refine ⟨fun other opened => ?_, List.nodup_cons.mpr ⟨fun below => ?_, nested.once⟩, ?_, nofun,
        raw⟩
      · rcases List.mem_cons.mp opened with same | below
        · rw [same, canonical]
          exact List.mem_cons_self
        · exact List.mem_cons_of_mem _ (nested.visited other below)
      · exact fresh (canonical ▸ nested.visited _ below)
      · cases stack with
        | nil => exact .singleton d
        | cons outer below =>
            obtain ⟨e, stored, nests⟩ := nested.waiting name outer below rfl rfl
            cases stored.symm.trans known
            exact .cons_cons nests nested.chain
  | absent fresh unknown =>
      exact ⟨fun other opened => List.mem_cons_of_mem _ (nested.visited other opened), nested.once,
        nested.chain, nofun, raw⟩
  | skip next primitive =>
      exact ⟨nested.visited, nested.once, Scope.isChain_of_core nested.chain rfl, nofun, raw⟩
  | merge next mergeable named visited =>
      exact ⟨nested.visited, nested.once, Scope.isChain_of_core nested.chain rfl, nofun, raw⟩
  | @close host stack state members done targeted =>
      obtain ⟨notBelow, onceBelow⟩ := List.nodup_cons.mp nested.once
      refine ⟨fun name below => nested.visited name (List.mem_cons_of_mem _ below), onceBelow, ?_,
        nofun, fun name e known unclosed => ?_⟩
      · cases nested.chain with
        | singleton => exact .nil
        | cons_cons _ rest => exact rest
      · rw [Store.get?_add] at known
        split at known
        · rename_i same
          have closed : Conf.Closed ⟨stack, none,
              { state with store := state.store.add { host with members } }⟩ name :=
            same ▸ ⟨nested.visited _ List.mem_cons_self, notBelow⟩
          exact absurd closed unclosed
        · exact raw name e known unclosed

end Step

theorem Conf.Reachable.nested {scope : Scope} {roots : ImportPath → String → Prop} {conf : Conf}
    (reachable : conf.Reachable scope roots) (unchanging : scope.loader.Unchanging)
    (clear : scope.Clear roots) : conf.Nested scope := by
  refine reachable.keep (fun journal => ⟨nofun, List.nodup_nil, .nil, nofun, nofun⟩) ?_
  intro conf conf' before step nested
  exact step.nested unchanging clear before.sound (before.traced unchanging clear) nested

/-- Whoever meets a visited name finds the final form of it, or the bare declaration of something
that refers back to the definition at work. -/
theorem Conf.Nested.closed_or_refersBack {scope : Scope} {supply : List String}
    {top e d u : Definition} {stack : List Definition} {state : Definer}
    (nested : Conf.Nested scope ⟨top :: stack, none, state⟩)
    (sound : Conf.Sound supply ⟨top :: stack, none, state⟩) (copiesTop : scope.Copies d top)
    (copies : scope.Copies u e) (known : state.store.get? e.canonical = some e)
    (visited : e.canonical ∈ state.defined) :
    Conf.Closed ⟨top :: stack, none, state⟩ e.canonical ∨ e = u ∧ scope.RefersBack u d := by
  by_cases opened : e.canonical ∈ Conf.openNames ⟨top :: stack, none, state⟩
  · refine Or.inr ⟨?_, ?_⟩
    · have declared := nested.raw _ e known fun closed => closed.2 opened
      exact Scope.Copies.unique ⟨declared, rfl⟩ copies
    · obtain ⟨host, among, same⟩ := List.mem_map.mp opened
      obtain ⟨stored, found, core⟩ := sound.frames host among
      rw [same] at found
      cases found.symm.trans known
      exact Scope.refersBack_of_isChain nested.chain copiesTop among
        ⟨copies.1, core.symm.trans copies.2⟩
  · exact Or.inl ⟨visited, opened⟩

/-! ## Calls for one definition -/

/-- The outermost open definition is `u`, and nothing else is visited while none is open. -/
structure Conf.Based (u : Definition) (conf : Conf) : Prop where
  bottom : ∀ name, conf.openNames.getLast? = some name → name = u.canonical
  waiting : conf.stack = [] → ∀ name, conf.waiting = some name → name = u.canonical

theorem Conf.Based.not_closed {conf : Conf} {u host : Definition} {stack : List Definition}
    (based : conf.Based u) (top : conf.stack = host :: stack) : ¬ conf.Closed u.canonical := by
  intro closed
  have some_open : conf.openNames ≠ [] := by
    rw [Conf.openNames, top]
    exact List.cons_ne_nil _ _
  have last := based.bottom _ (List.getLast?_eq_some_getLast some_open)
  exact closed.2 (last ▸ List.getLast_mem some_open)

theorem Step.based {scope : Scope} {roots : ImportPath → String → Prop} {supply : List String}
    {conf conf' : Conf} (step : Step scope roots conf conf') (unchanging : scope.loader.Unchanging)
    (clear : scope.Clear roots) (sound : conf.Sound supply)
    (all : conf.All fun _ e => ∃ d, scope.Traces roots d e) {u : Definition}
    (alone : scope.Alone roots u) (based : conf.Based u) : conf'.Based u := by
  cases step with
  | read journal => exact ⟨based.bottom, based.waiting⟩
  | @hit stack state referring text e asks found =>
      refine ⟨based.bottom, fun none_open name waits => ?_⟩
      cases waits
      obtain ⟨path, candidate, known⟩ := Scope.names_of_lookup found
      obtain ⟨d, traces⟩ := all.stored _ e known
      have resolves := traces.resolves clear (Scope.met_of_asks all.opened asks)
        ⟨path, candidate, known⟩
      cases none_open
      cases asks with
      | root called =>
          cases (alone _ _ called).symm.trans resolves
          exact traces.canonical_eq
  | @miss stack state referring text d journal asks missed resolves =>
      refine ⟨based.bottom, fun none_open name waits => ?_⟩
      cases waits
      obtain ⟨resolved, _⟩ := Scope.traces_of_resolve unchanging all.opened asks resolves
      cases none_open
      cases asks with
      | root called =>
          cases (alone _ _ called).symm.trans resolved
          rfl
  | pass visited => exact ⟨based.bottom, nofun⟩
  | @enter stack state name d fresh known =>
      refine ⟨fun last ends => ?_, nofun⟩
      cases stack with
      | nil =>
          cases ends
          rw [Store.canonical_of_get? known]
          exact based.waiting rfl name rfl
      | cons outer below =>
          refine based.bottom last ?_
          rw [← ends]
          exact (List.getLast?_cons_cons).symm
  | absent fresh unknown => exact ⟨based.bottom, nofun⟩
  | skip next primitive => exact ⟨based.bottom, nofun⟩
  | merge next mergeable named visited => exact ⟨based.bottom, nofun⟩
  | @close host stack state members done targeted =>
      refine ⟨fun last ends => ?_, nofun⟩
      cases stack with
      | nil => cases ends
      | cons outer below =>
          refine based.bottom last ?_
          rw [← ends]
          exact List.getLast?_cons_cons

theorem Conf.Reachable.based {scope : Scope} {roots : ImportPath → String → Prop} {conf : Conf}
    (reachable : conf.Reachable scope roots) (unchanging : scope.loader.Unchanging)
    (clear : scope.Clear roots) {u : Definition} (alone : scope.Alone roots u) : conf.Based u := by
  refine reachable.keep (fun journal => ⟨nofun, nofun⟩) fun conf conf' before step based => ?_
  exact step.based unchanging clear before.sound (before.traced unchanging clear) alone based

end ApiDocs
