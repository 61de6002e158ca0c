import ApiDocs.Proofs.Definer.Run

/-!
# Invariants of a definer

Two ways to carry a fact along a run. A property of single definitions lasts if everything that
makes or changes a definition gives it (`Lasting`); then all definitions have it that are stored or
open (`Conf.Reachable.all`). That every stored definition ends up finished, with nothing left to
merge and no reference without a target, is a fact about the whole configuration (`Conf.Orderly`):
what is visited is open or finished, and what is stored is visited or about to be.
-/

namespace ApiDocs

/-! ## Properties of definitions -/

/-- All stored and all open definitions have the property. -/
structure Conf.All (holds : Definer → Definition → Prop) (conf : Conf) : Prop where
  stored : ∀ name d, conf.state.store.get? name = some d → holds conf.state d
  opened : ∀ host ∈ conf.stack, holds conf.state host

/-- A property of definitions that every step keeps: growth of the state cannot spoil it, what is
resolved has it, and so has what merging and targeting make of definitions that have it. -/
structure Lasting (scope : Scope) (roots : ImportPath → String → Prop) (supply : List String)
    (holds : Definer → Definition → Prop) : Prop where
  grow : ∀ {state state' : Definer} {d : Definition}, state.Grows state' → holds state d →
    holds state' d
  resolve : ∀ {conf : Conf} {referring : ImportPath} {text : String} {d : Definition}
    {journal : Journal}, conf.Sound supply → conf.All holds →
    Asks roots conf.stack referring text →
    scope.resolve referring text conf.state.journal = (.ok (some d), journal) →
    holds conf.state d
  skip : ∀ {state : Definer} {host : Definition} {text : String} {texts : List String},
    host.embedded = text :: texts → Scope.isMergeable text = false → holds state host →
    holds state { host with embedded := texts }
  merge : ∀ {conf : Conf} {host source : Definition} {stack : List Definition} {text : String}
    {texts : List String}, conf.Sound supply → conf.All holds → conf.stack = host :: stack →
    host.embedded = text :: texts → Scope.isMergeable text = true →
    scope.Names conf.state.store host.importPath text source →
    holds conf.state { host with
      members := Scope.mergeMembers host.members source.members
      embedded := texts }
  close : ∀ {conf : Conf} {host : Definition} {stack : List Definition} {members : Table Member},
    conf.Sound supply → conf.All holds → conf.stack = host :: stack → host.embedded = [] →
    scope.TargetsAll conf.state host.importPath host.members members →
    holds conf.state { host with members }

section All

variable {scope : Scope} {roots : ImportPath → String → Prop} {supply : List String}
  {holds : Definer → Definition → Prop} {conf conf' : Conf}

theorem Conf.All.grow {conf conf' : Conf} {holds : Definer → Definition → Prop}
    (lasting : Lasting scope roots supply holds) (grows : conf.state.Grows conf'.state)
    (all : conf.All holds) :
    (∀ name d, conf.state.store.get? name = some d → holds conf'.state d) ∧
      ∀ host ∈ conf.stack, holds conf'.state host :=
  ⟨fun name d known => lasting.grow grows (all.stored name d known),
    fun host among => lasting.grow grows (all.opened host among)⟩

/-- A step keeps what lasts of stored and open definitions. -/
theorem Step.all (step : Step scope roots conf conf') (lasting : Lasting scope roots supply holds)
    (sound : conf.Sound supply) (all : conf.All holds) : conf'.All holds := by
  have grows := step.grows sound
  obtain ⟨stored, opened⟩ := all.grow lasting grows
  cases step with
  | read journal => exact ⟨stored, opened⟩
  | hit asks found => exact ⟨stored, opened⟩
  | @miss stack state referring text d journal asks missed resolves =>
      refine ⟨fun name e known => ?_, opened⟩
      rw [Store.get?_add] at known
      split at known
      · cases known
        exact lasting.grow grows (lasting.resolve sound all asks resolves)
      · exact stored name e known
  | pass visited => exact ⟨stored, opened⟩
  | @enter stack state name d fresh known =>
      refine ⟨stored, fun host among => ?_⟩
      rcases List.mem_cons.mp among with rfl | among
      · exact stored name host known
      · exact opened host among
  | absent fresh unknown => exact ⟨stored, opened⟩
  | @skip host stack state text texts next primitive =>
      refine ⟨stored, fun h among => ?_⟩
      rcases List.mem_cons.mp among with rfl | among
      · exact lasting.skip next primitive (all.opened host List.mem_cons_self)
      · exact opened h (List.mem_cons_of_mem _ among)
  | @merge host source stack state text texts next mergeable named visited =>
      have merged := lasting.merge sound all rfl next mergeable named
      refine ⟨stored, fun h among => ?_⟩
      rcases List.mem_cons.mp among with rfl | among
      · exact merged
      · exact opened h (List.mem_cons_of_mem _ among)
  | @close host stack state members done targeted =>
      refine ⟨fun name e known => ?_, fun h among => opened h (List.mem_cons_of_mem _ among)⟩
      rw [Store.get?_add] at known
      split at known
      · cases known
        exact lasting.grow grows (lasting.close sound all rfl done targeted)
      · exact stored name e known

/-- A run keeps what lasts of stored and open definitions. -/
theorem Steps.all (steps : Steps scope roots conf conf')
    (lasting : Lasting scope roots supply holds) (within : ∀ name ∈ scope.names, name ∈ supply)
    (sound : conf.Sound supply) (all : conf.All holds) : conf'.All holds := by
  induction steps with
  | refl => exact all
  | tail earlier step ih => exact step.all lasting (Steps.sound earlier within sound) ih

end All

/-! ## Everything is finished -/

/-- Nothing is left to merge, and every reference has a target. -/
structure Definition.Finished (d : Definition) : Prop where
  merged : d.embedded = []
  targeted : ∀ entry ∈ d.members, entry.2.unresolved = []

/-- A member that has got its targets has no open references. -/
theorem Scope.Targets.unresolved_eq_nil {scope : Scope} {state : Definer} {referring : ImportPath}
    {m m' : Member} (targeted : scope.Targets state referring m m') : m'.unresolved = [] := by
  induction targeted with
  | kept settled => rw [Member.unresolved, if_pos settled]
  | found needs named visited => rw [Member.unresolved, if_pos (by simp)]
  | collection _ ih => exact ih
  | mapping _ _ ihKey ihValue => rw [Member.unresolved, ihKey, ihValue, List.append_nil]

/-- Targets are all that a member gets. -/
theorem Scope.Targets.bare_eq {scope : Scope} {state : Definer} {referring : ImportPath}
    {m m' : Member} (targeted : scope.Targets state referring m m') : m'.bare = m.bare := by
  induction targeted with
  | kept settled => rfl
  | found needs named visited => rfl
  | collection _ ih => rw [Member.bare, Member.bare, ih]
  | mapping _ _ ihKey ihValue => rw [Member.bare, Member.bare, ihKey, ihValue]

theorem Scope.Targets.references_eq {scope : Scope} {state : Definer} {referring : ImportPath}
    {m m' : Member} (targeted : scope.Targets state referring m m') :
    m'.references = m.references := by
  rw [← m'.references_bare, targeted.bare_eq, m.references_bare]

theorem Scope.TargetsAll.exists_targets {scope : Scope} {state : Definer} {path : ImportPath}
    {members members' : Table Member} (targeted : scope.TargetsAll state path members members')
    {entry' : String × Member} (among : entry' ∈ members') :
    ∃ entry ∈ members, entry'.1 = entry.1 ∧
      scope.Targets state (referringUnit path entry.2) entry.2 entry'.2 := by
  induction targeted with
  | nil => cases among
  | @cons entry e members members' here rest ih =>
      rcases List.mem_cons.mp among with rfl | later
      · exact ⟨entry, List.mem_cons_self, here⟩
      · obtain ⟨entry, present, targets⟩ := ih later
        exact ⟨entry, List.mem_cons_of_mem _ present, targets⟩

/-- The order in which names are stored, visited, opened and finished, apart from names of which
nothing is known but that they may be visited. -/
structure Conf.Ordered (apart : String → Prop) (conf : Conf) : Prop where
  waits : ∀ name, conf.waiting = some name →
    apart name ∨ ∃ d, conf.state.store.get? name = some d
  reached : ∀ name d, conf.state.store.get? name = some d →
    name ∈ conf.state.defined ∨ conf.waiting = some name
  visited : ∀ name ∈ conf.state.defined, apart name ∨
    (∃ host ∈ conf.stack, host.canonical = name) ∨
    ∃ d, conf.state.store.get? name = some d ∧ d.Finished

namespace Conf.Ordered

variable {apart : String → Prop} {stack : List Definition} {state : Definer}

/-- What is done to the definition on top, short of closing it, does not change the order. -/
theorem replace_top {host host' : Definition}
    (ordered : Conf.Ordered apart ⟨host :: stack, none, state⟩)
    (same : host'.canonical = host.canonical) :
    Conf.Ordered apart ⟨host' :: stack, none, state⟩ := by
  refine ⟨nofun, ordered.reached, fun name defined => ?_⟩
  refine (ordered.visited name defined).imp_right fun known => known.imp_left ?_
  rintro ⟨h, among, named⟩
  rcases List.mem_cons.mp among with rfl | below
  · exact ⟨host', List.mem_cons_self, same.trans named⟩
  · exact ⟨h, List.mem_cons_of_mem _ below, named⟩

/-- Once the waiting name is visited, all that is stored is. -/
theorem reached_visit {name other : String} {e : Definition}
    (ordered : Conf.Ordered apart ⟨stack, some name, state⟩)
    (known : state.store.get? other = some e) : other ∈ name :: state.defined := by
  rcases ordered.reached other e known with defined | same
  · exact List.mem_cons_of_mem _ defined
  · cases same
    exact List.mem_cons_self

/-- A definition that was missing is stored and waits for its visit. -/
theorem miss {d : Definition} {journal : Journal}
    (ordered : Conf.Ordered apart ⟨stack, none, state⟩)
    (fresh : state.store.get? d.canonical = none) :
    Conf.Ordered apart
      ⟨stack, some d.canonical, { state with store := state.store.add d, journal }⟩ := by
  refine ⟨fun name same => ?_, fun name e known => ?_, fun name defined => ?_⟩
  · cases same
    exact Or.inr ⟨d, Store.get?_add_self state.store d⟩
  · rw [Store.get?_add] at known
    split at known
    · rename_i same
      exact Or.inr (congrArg some same)
    · exact Or.inl ((ordered.reached name e known).resolve_right nofun)
  · refine (ordered.visited name defined).imp_right fun known => known.imp_right ?_
    rintro ⟨e, known, finished⟩
    refine ⟨e, (Store.get?_add_of_ne ?_).trans known, finished⟩
    rintro rfl
    cases fresh.symm.trans known

/-- The definition on top is closed by storing it in its finished form. -/
theorem close {host e : Definition} (ordered : Conf.Ordered apart ⟨host :: stack, none, state⟩)
    (stored : ∃ d, state.store.get? host.canonical = some d)
    (same : e.canonical = host.canonical) (finished : e.Finished) :
    Conf.Ordered apart ⟨stack, none, { state with store := state.store.add e }⟩ := by
  refine ⟨nofun, fun name f known => ?_, fun name defined => ?_⟩
  · by_cases here : e.canonical = name
    · obtain ⟨d, stored⟩ := stored
      exact ordered.reached name d (here ▸ same ▸ stored)
    · exact ordered.reached name f ((Store.get?_add_of_ne here).symm.trans known)
  · by_cases here : e.canonical = name
    · exact Or.inr (Or.inr ⟨e, here ▸ Store.get?_add_self state.store e, finished⟩)
    · refine (ordered.visited name defined).imp_right ?_
      rintro (⟨h, among, named⟩ | ⟨f, known, ends⟩)
      · rcases List.mem_cons.mp among with rfl | below
        · exact absurd (same.trans named) here
        · exact Or.inl ⟨h, below, named⟩
      · exact Or.inr ⟨f, (Store.get?_add_of_ne here).trans known, ends⟩

end Conf.Ordered

/-- A definition that nothing is left to merge into is finished by the targets of its members. -/
theorem Scope.TargetsAll.finished {scope : Scope} {state : Definer} {host : Definition}
    {members : Table Member}
    (targeted : scope.TargetsAll state host.importPath host.members members)
    (done : host.embedded = []) : ({ host with members } : Definition).Finished := by
  refine ⟨done, fun entry among => ?_⟩
  obtain ⟨_, _, _, targets⟩ := targeted.exists_targets among
  exact targets.unresolved_eq_nil

/-- The order is kept by every step. -/
theorem Step.ordered {scope : Scope} {roots : ImportPath → String → Prop} {supply : List String}
    {apart : String → Prop} {conf conf' : Conf} (step : Step scope roots conf conf')
    (sound : conf.Sound supply) (ordered : conf.Ordered apart) : conf'.Ordered apart := by
  cases step with
  | read journal => exact ⟨ordered.waits, ordered.reached, ordered.visited⟩
  | @hit stack state referring text d asks found =>
      refine ⟨fun name same => ?_, fun name e known => ?_, ordered.visited⟩
      · cases same
        obtain ⟨path, _, known⟩ := Scope.names_of_lookup found
        exact Or.inr ⟨d, Store.get?_canonical known⟩
      · exact Or.inl ((ordered.reached name e known).resolve_right nofun)
  | miss asks missed resolves => exact ordered.miss (Step.get?_of_miss missed resolves)
  | @pass stack state name visited =>
      refine ⟨nofun, fun other e known => ?_, ordered.visited⟩
      rcases List.mem_cons.mp (ordered.reached_visit known) with rfl | defined
      · exact Or.inl visited
      · exact Or.inl defined
  | @enter stack state name d fresh known =>
      refine ⟨nofun, fun other e stored => Or.inl (ordered.reached_visit stored), ?_⟩
      intro other defined
      rcases List.mem_cons.mp defined with rfl | defined
      · exact Or.inr (Or.inl ⟨d, List.mem_cons_self, Store.canonical_of_get? known⟩)
      · refine (ordered.visited other defined).imp_right fun known => known.imp_left ?_
        rintro ⟨host, among, same⟩
        exact ⟨host, List.mem_cons_of_mem _ among, same⟩
  | @absent stack state name fresh unknown =>
      have waited : apart name := (ordered.waits name rfl).resolve_right fun ⟨d, known⟩ => by
        cases unknown.symm.trans known
      refine ⟨nofun, fun other e known => Or.inl (ordered.reached_visit known), ?_⟩
      intro other defined
      rcases List.mem_cons.mp defined with rfl | defined
      · exact Or.inl waited
      · exact ordered.visited other defined
  | skip next primitive => exact ordered.replace_top rfl
  | merge next mergeable named visited => exact ordered.replace_top rfl
  | @close host stack state members done targeted =>
      obtain ⟨d, stored, _⟩ := sound.frames host List.mem_cons_self
      exact ordered.close ⟨d, stored⟩ rfl (targeted.finished done)

/-- A run keeps the order of a configuration. -/
theorem Steps.ordered {scope : Scope} {roots : ImportPath → String → Prop} {supply : List String}
    {apart : String → Prop} {conf conf' : Conf} (steps : Steps scope roots conf conf')
    (within : ∀ name ∈ scope.names, name ∈ supply) (sound : conf.Sound supply)
    (ordered : conf.Ordered apart) : conf'.Ordered apart := by
  induction steps with
  | refl => exact ordered
  | tail earlier step ih => exact step.ordered (Steps.sound earlier within sound) ih

/-- The order in which names are stored, visited, opened and finished. -/
structure Conf.Orderly (conf : Conf) : Prop where
  waits : ∀ name, conf.waiting = some name → ∃ d, conf.state.store.get? name = some d
  reached : ∀ name d, conf.state.store.get? name = some d →
    name ∈ conf.state.defined ∨ conf.waiting = some name
  visited : ∀ name ∈ conf.state.defined, (∃ host ∈ conf.stack, host.canonical = name) ∨
    ∃ d, conf.state.store.get? name = some d ∧ d.Finished

/-- A configuration is orderly if it is so with no name set apart. -/
theorem Conf.orderly_iff {conf : Conf} : conf.Orderly ↔ conf.Ordered fun _ => False := by
  constructor
  · intro orderly
    exact ⟨fun name same => Or.inr (orderly.waits name same), orderly.reached,
      fun name defined => Or.inr (orderly.visited name defined)⟩
  · intro ordered
    exact ⟨fun name same => (ordered.waits name same).resolve_left id, ordered.reached,
      fun name defined => (ordered.visited name defined).resolve_left id⟩

theorem Step.orderly {scope : Scope} {roots : ImportPath → String → Prop} {supply : List String}
    {conf conf' : Conf} (step : Step scope roots conf conf') (sound : conf.Sound supply)
    (orderly : conf.Orderly) : conf'.Orderly :=
  Conf.orderly_iff.mpr (step.ordered sound (Conf.orderly_iff.mp orderly))

/-! ## From an empty store -/

/-- A configuration that steps lead to from an empty store. -/
def Conf.Reachable (scope : Scope) (roots : ImportPath → String → Prop) (conf : Conf) : Prop :=
  ∃ journal, Steps scope roots ⟨[], none, { journal }⟩ conf

namespace Conf.Reachable

variable {scope : Scope} {roots : ImportPath → String → Prop} {conf : Conf}

/-- What holds at the start and is kept by each step holds of all that can be reached. -/
theorem keep {invariant : Conf → Prop} (reachable : conf.Reachable scope roots)
    (start : ∀ journal, invariant ⟨[], none, { journal }⟩)
    (kept : ∀ conf conf', conf.Reachable scope roots → Step scope roots conf conf' →
      invariant conf → invariant conf') : invariant conf := by
  obtain ⟨journal, steps⟩ := reachable
  induction steps with
  | refl => exact start journal
  | tail earlier step ih => exact kept _ _ ⟨journal, earlier⟩ step ih

theorem sound (reachable : conf.Reachable scope roots) : conf.Sound scope.names := by
  refine reachable.keep (fun journal => ⟨nofun, nofun⟩) ?_
  exact fun _ _ _ step sound => step.sound (fun _ declared => declared) sound

theorem all {holds : Definer → Definition → Prop} (reachable : conf.Reachable scope roots)
    (lasting : Lasting scope roots scope.names holds) : conf.All holds := by
  refine reachable.keep (fun journal => ⟨nofun, nofun⟩) fun _ _ before step all => ?_
  exact step.all lasting before.sound all

theorem orderly (reachable : conf.Reachable scope roots) : conf.Orderly := by
  refine reachable.keep (fun journal => ⟨nofun, nofun, nofun⟩) fun _ _ before step orderly => ?_
  exact step.orderly before.sound orderly

/-- When a run ends, what is stored is visited and finished. -/
theorem finished {state : Definer} (reachable : Conf.Reachable scope roots ⟨[], none, state⟩)
    {name : String} {d : Definition} (known : state.store.get? name = some d) :
    name ∈ state.defined ∧ d.Finished := by
  have visited := (reachable.orderly.reached name d known).resolve_right nofun
  obtain ⟨e, stored, finished⟩ := (reachable.orderly.visited name visited).resolve_left nofun
  cases stored.symm.trans known
  exact ⟨visited, finished⟩

end Conf.Reachable

namespace Definer

/-- Calls from an empty store end where all is closed, or where a reference cannot be found. -/
theorem defineInOrder_ends (scope : Scope) (calls : List (ImportPath × Member))
    (journal : Journal) :
    Ends (defineInOrder scope calls { journal })
      (fun members left => Conf.Reachable scope (Called calls) ⟨[], none, left⟩ ∧
        List.Forall₂ (fun call m' => scope.Targets left call.1 call.2 m') calls members)
      fun _ left => ∃ stack, Conf.Reachable scope (Called calls) ⟨stack, none, left⟩ ∧
        Conf.Stuck scope (Called calls) ⟨stack, none, left⟩ := by
  have start : Conf.Reachable scope (Called calls) ⟨[], none, { journal }⟩ := ⟨journal, .refl⟩
  refine (defineInOrder_follows (fun _ declared => declared) calls (fun _ _ called => called)
    start.sound).mono ?_ ?_
  · rintro members left ⟨steps, targeted⟩
    exact ⟨⟨journal, steps⟩, targeted⟩
  · rintro failure left ⟨stack, steps, stuck⟩
    exact ⟨stack, ⟨journal, steps⟩, stuck⟩

/-- Calls end in a configuration that can be reached. -/
theorem exists_reachable (scope : Scope) (calls : List (ImportPath × Member))
    (journal : Journal) :
    ∃ stack, Conf.Reachable scope (Called calls)
      ⟨stack, none, (defineInOrder scope calls { journal }).2⟩ := by
  have ends := defineInOrder_ends scope calls journal
  cases ran : defineInOrder scope calls { journal } with
  | mk result left =>
      cases result with
      | error failure =>
          obtain ⟨stack, reachable, _⟩ := ends.error ran
          exact ⟨stack, reachable⟩
      | ok members => exact ⟨[], (ends.ok ran).1⟩

end Definer

end ApiDocs
