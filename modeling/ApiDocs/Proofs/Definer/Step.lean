import ApiDocs.Proofs.Member
import ApiDocs.Proofs.Resolution
import Mathlib.Data.List.Forall2
import Mathlib.Logic.Relation

/-!
# Steps of a definer

Defining a type defines what it refers to first, so a statement about a whole run cannot name what
is going on in the middle of it. A configuration `Conf` can: it holds the definitions that are open
(innermost first, each with what is merged so far), the name that is visited next, and the state.
`Step` is all that a definer does from one configuration to the next, and `Steps` its closure.

* A reference of the innermost open definition, or of the call when none is open, is looked up
  (`hit`) or resolved and stored (`miss`). Its name then waits to be visited: a name visited before
  is passed over (`pass`), any other is opened (`enter`).
* An open definition takes over the members of what it embeds (`merge`, `skip`), and once all its
  members have targets its final form is stored (`close`).

The steps do not fix the order in which members get their targets, nor which of several stored
candidates a reference finds; what holds along all steps therefore holds of every run
(`ApiDocs.Proofs.Definer.Run`).
-/

namespace ApiDocs

/-! ## The store -/

theorem Store.get?_add (store : Store) (d : Definition) (name : String) :
    (store.add d).get? name = if d.canonical = name then some d else store.get? name :=
  Table.get?_insert store.definitions d.canonical d name

theorem Store.get?_add_self (store : Store) (d : Definition) :
    (store.add d).get? d.canonical = some d := by
  rw [get?_add, if_pos rfl]

theorem Store.get?_add_of_ne {store : Store} {d : Definition} {name : String}
    (differs : d.canonical ≠ name) : (store.add d).get? name = store.get? name := by
  rw [get?_add, if_neg differs]

namespace Scope

/-- The definition is stored under the name that a candidate unit gives the reference. -/
def Names (scope : Scope) (store : Store) (referring : ImportPath) (text : String)
    (d : Definition) : Prop :=
  ∃ path ∈ scope.graph.candidates referring (TypeText.reference text),
    store.get? (canonicalName path (TypeText.reference text).name) = some d

theorem names_of_lookup {scope : Scope} {store : Store} {referring : ImportPath} {text : String}
    {d : Definition} (found : store.lookup scope.graph referring text = some d) :
    scope.Names store referring text d :=
  List.exists_of_findSome?_eq_some found

/-- A reference that misses the store has no stored candidate. -/
theorem get?_eq_none_of_lookup {scope : Scope} {store : Store} {referring : ImportPath}
    {text : String} (missed : store.lookup scope.graph referring text = none) {path : ImportPath}
    (candidate : path ∈ scope.graph.candidates referring (TypeText.reference text)) :
    store.get? (canonicalName path (TypeText.reference text).name) = none :=
  List.findSome?_eq_none_iff.mp missed path candidate

/-! ## Configurations -/

/-- The member with targets: every reference without one gets the unit of a stored definition
that it can name and that was visited. -/
inductive Targets (scope : Scope) (state : Definer) (referring : ImportPath) :
    Member → Member → Prop
  | kept {info : MemberInfo} {text : String} {target : Option TargetUnit} :
    (TypeText.isPrimitive text || target.isSome) = true →
    Targets scope state referring (.scalar info text target) (.scalar info text target)
  | found {info : MemberInfo} {text : String} {d : Definition} :
    TypeText.isPrimitive text = false → scope.Names state.store referring text d →
    d.canonical ∈ state.defined →
    Targets scope state referring (.scalar info text none) (.scalar info text (some d.target))
  | collection {info : MemberInfo} {element element' : Member} :
    Targets scope state referring element element' →
    Targets scope state referring (.collection info element) (.collection info element')
  | mapping {info : MemberInfo} {key key' value value' : Member} :
    Targets scope state referring key key' → Targets scope state referring value value' →
    Targets scope state referring (.mapping info key value) (.mapping info key' value')

/-- The members of a definition in `path` with targets, each looked up in its own unit. -/
def TargetsAll (scope : Scope) (state : Definer) (path : ImportPath) :
    Table Member → Table Member → Prop :=
  List.Forall₂ fun entry entry' => entry'.1 = entry.1 ∧
    scope.Targets state (referringUnit path entry.2) entry.2 entry'.2

end Scope

/-- What a definer is at: the open definitions, the name to be visited next, and the state. -/
structure Conf where
  stack : List Definition
  waiting : Option String
  state : Definer

/-- The references that a definer may look up next: those of the call when nothing is open, else
the next text that the innermost definition embeds or, after all are merged, its members'. -/
inductive Asks (roots : ImportPath → String → Prop) :
    List Definition → ImportPath → String → Prop
  | root {referring : ImportPath} {text : String} :
    roots referring text → Asks roots [] referring text
  | embedded {host : Definition} {stack : List Definition} {text : String} {texts : List String} :
    host.embedded = text :: texts → Scope.isMergeable text = true →
    Asks roots (host :: stack) host.importPath text
  | member {host : Definition} {stack : List Definition} {entry : String × Member}
      {text : String} :
    host.embedded = [] → entry ∈ host.members → text ∈ entry.2.unresolved →
    Asks roots (host :: stack) (Scope.referringUnit host.importPath entry.2) text

/-- One step of a definer that is called with the references `roots`. -/
inductive Step (scope : Scope) (roots : ImportPath → String → Prop) : Conf → Conf → Prop
  | read {stack : List Definition} {waiting : Option String} {state : Definer}
      (journal : Journal) :
    Step scope roots ⟨stack, waiting, state⟩ ⟨stack, waiting, { state with journal }⟩
  | hit {stack : List Definition} {state : Definer} {referring : ImportPath} {text : String}
      {d : Definition} :
    Asks roots stack referring text →
    state.store.lookup scope.graph referring text = some d →
    Step scope roots ⟨stack, none, state⟩ ⟨stack, some d.canonical, state⟩
  | miss {stack : List Definition} {state : Definer} {referring : ImportPath} {text : String}
      {d : Definition} {journal : Journal} :
    Asks roots stack referring text →
    state.store.lookup scope.graph referring text = none →
    scope.resolve referring text state.journal = (.ok (some d), journal) →
    Step scope roots ⟨stack, none, state⟩
      ⟨stack, some d.canonical, { state with store := state.store.add d, journal }⟩
  | pass {stack : List Definition} {state : Definer} {name : String} :
    name ∈ state.defined →
    Step scope roots ⟨stack, some name, state⟩ ⟨stack, none, state⟩
  | enter {stack : List Definition} {state : Definer} {name : String} {d : Definition} :
    name ∉ state.defined → state.store.get? name = some d →
    Step scope roots ⟨stack, some name, state⟩
      ⟨d :: stack, none, { state with defined := name :: state.defined }⟩
  | absent {stack : List Definition} {state : Definer} {name : String} :
    name ∉ state.defined → state.store.get? name = none →
    Step scope roots ⟨stack, some name, state⟩
      ⟨stack, none, { state with defined := name :: state.defined }⟩
  | skip {host : Definition} {stack : List Definition} {state : Definer} {text : String}
      {texts : List String} :
    host.embedded = text :: texts → Scope.isMergeable text = false →
    Step scope roots ⟨host :: stack, none, state⟩
      ⟨{ host with embedded := texts } :: stack, none, state⟩
  | merge {host source : Definition} {stack : List Definition} {state : Definer} {text : String}
      {texts : List String} :
    host.embedded = text :: texts → Scope.isMergeable text = true →
    scope.Names state.store host.importPath text source → source.canonical ∈ state.defined →
    Step scope roots ⟨host :: stack, none, state⟩
      ⟨{ host with
          members := Scope.mergeMembers host.members source.members
          embedded := texts } :: stack, none, state⟩
  | close {host : Definition} {stack : List Definition} {state : Definer}
      {members : Table Member} :
    host.embedded = [] → scope.TargetsAll state host.importPath host.members members →
    Step scope roots ⟨host :: stack, none, state⟩
      ⟨stack, none, { state with store := state.store.add { host with members } }⟩

/-- Any number of steps. -/
abbrev Steps (scope : Scope) (roots : ImportPath → String → Prop) : Conf → Conf → Prop :=
  Relation.ReflTransGen (Step scope roots)

/-- What a step keeps holds after any number of them. -/
theorem Steps.keep {scope : Scope} {roots : ImportPath → String → Prop} {invariant : Conf → Prop}
    (kept : ∀ conf conf', Step scope roots conf conf' → invariant conf → invariant conf')
    {conf conf' : Conf} (steps : Steps scope roots conf conf') (holds : invariant conf) :
    invariant conf' := by
  induction steps with
  | refl => exact holds
  | tail _ step ih => exact kept _ _ step ih

/-! ## What every step keeps -/

/-- Stored definitions stay stored with all but their members, and visited names stay visited. -/
structure Definer.Grows (state state' : Definer) : Prop where
  defined : ∀ name ∈ state.defined, name ∈ state'.defined
  stored : ∀ name d, state.store.get? name = some d →
    ∃ d', state'.store.get? name = some d' ∧ d'.core = d.core

namespace Definer.Grows

theorem refl (state : Definer) : state.Grows state :=
  ⟨fun _ visited => visited, fun _ d known => ⟨d, known, rfl⟩⟩

theorem visit (state : Definer) (name : String) :
    state.Grows { state with defined := name :: state.defined } :=
  ⟨fun _ visited => List.mem_cons_of_mem _ visited, fun _ d known => ⟨d, known, rfl⟩⟩

theorem trans {first second third : Definer} (left : first.Grows second)
    (right : second.Grows third) : first.Grows third := by
  refine ⟨fun name visited => right.defined name (left.defined name visited), ?_⟩
  intro name d known
  obtain ⟨d', known', same⟩ := left.stored name d known
  obtain ⟨d'', known'', same'⟩ := right.stored name d' known'
  exact ⟨d'', known'', same'.trans same⟩

/-- As a store grows, what a reference names keeps its core. -/
theorem names {scope : Scope} {state state' : Definer} (grows : state.Grows state')
    {referring : ImportPath} {text : String} {d : Definition}
    (named : scope.Names state.store referring text d) :
    ∃ d', scope.Names state'.store referring text d' ∧ d'.core = d.core := by
  obtain ⟨path, candidate, known⟩ := named
  obtain ⟨d', known', same⟩ := grows.stored _ d known
  exact ⟨d', ⟨path, candidate, known'⟩, same⟩

/-- Targets stay targets as the store grows. -/
theorem targets {scope : Scope} {state state' : Definer} (grows : state.Grows state')
    {referring : ImportPath} {m m' : Member} (targeted : scope.Targets state referring m m') :
    scope.Targets state' referring m m' := by
  induction targeted with
  | kept settled => exact .kept settled
  | @found info text d needs named visited =>
      obtain ⟨d', named', same⟩ := grows.names named
      rw [← Definition.target_eq_of_core same]
      refine .found needs named' ?_
      rw [Definition.canonical_eq_of_core same]
      exact grows.defined _ visited
  | collection _ ih => exact .collection ih
  | mapping _ _ ihKey ihValue => exact .mapping ihKey ihValue

end Definer.Grows

/-- The shape of a configuration whose store holds no names but those of `supply`: definitions that
are open are stored. -/
structure Conf.Sound (supply : List String) (conf : Conf) : Prop where
  supplied : ∀ name d, conf.state.store.get? name = some d → name ∈ supply
  frames : ∀ host ∈ conf.stack,
    ∃ d, conf.state.store.get? host.canonical = some d ∧ d.core = host.core

namespace Step

variable {scope : Scope} {roots : ImportPath → String → Prop} {supply : List String}
  {conf conf' : Conf}

/-- What is resolved after a miss is not stored yet. -/
theorem get?_of_miss {state : Definer} {referring : ImportPath} {text : String} {d : Definition}
    {journal : Journal} (missed : state.store.lookup scope.graph referring text = none)
    (resolves : scope.resolve referring text state.journal = (.ok (some d), journal)) :
    state.store.get? d.canonical = none := by
  obtain ⟨path, candidate, offers⟩ := (scope.resolve_offers referring text state.journal).ok
    resolves d rfl
  rw [offers.canonical_eq]
  exact Scope.get?_eq_none_of_lookup missed candidate

/-- A step forgets no definition and no visit. -/
theorem grows (step : Step scope roots conf conf') (sound : conf.Sound supply) :
    conf.state.Grows conf'.state := by
  cases step with
  | read journal => exact ⟨fun _ visited => visited, fun _ d known => ⟨d, known, rfl⟩⟩
  | hit asks found => exact .refl _
  | miss asks missed resolves =>
      refine ⟨fun _ visited => visited, fun name e known => ⟨e, ?_, rfl⟩⟩
      rw [Store.get?_add_of_ne]
      · exact known
      · rintro rfl
        cases (get?_of_miss missed resolves).symm.trans known
  | pass visited => exact .refl _
  | enter fresh known => exact .visit _ _
  | absent fresh unknown => exact .visit _ _
  | skip next primitive => exact .refl _
  | merge next mergeable named visited => exact .refl _
  | @close host stack state members done targeted =>
      refine ⟨fun _ visited => visited, fun name e known => ?_⟩
      by_cases same : host.canonical = name
      · subst same
        obtain ⟨d, stored, core⟩ := sound.frames host List.mem_cons_self
        cases stored.symm.trans known
        exact ⟨_, Store.get?_add_self state.store { host with members }, core.symm⟩
      · exact ⟨e, (Store.get?_add_of_ne (d := { host with members }) same).trans known, rfl⟩

/-- A step keeps a configuration sound. -/
theorem sound (step : Step scope roots conf conf') (within : ∀ name ∈ scope.names, name ∈ supply)
    (sound : conf.Sound supply) : conf'.Sound supply := by
  have grows := step.grows sound
  -- Open definitions stay stored because the store grows; only what is on top changes.
  have open_ : ∀ host ∈ conf.stack,
      ∃ d, conf'.state.store.get? host.canonical = some d ∧ d.core = host.core := by
    intro host among
    obtain ⟨d, stored, core⟩ := sound.frames host among
    obtain ⟨d', stored', core'⟩ := grows.stored _ d stored
    exact ⟨d', stored', core'.trans core⟩
  cases step with
  | read journal => exact ⟨sound.supplied, open_⟩
  | hit asks found => exact ⟨sound.supplied, open_⟩
  | @miss stack state referring text d journal asks missed resolves =>
      refine ⟨fun name e known => ?_, open_⟩
      rw [Store.get?_add] at known
      split at known
      · rename_i same
        obtain ⟨path, candidate, offers⟩ := (scope.resolve_offers referring text state.journal).ok
          resolves d rfl
        exact same ▸ within _ offers.canonical_mem_names
      · exact sound.supplied name e known
  | pass visited => exact ⟨sound.supplied, open_⟩
  | @enter stack state name d fresh known =>
      refine ⟨sound.supplied, fun host among => ?_⟩
      rcases List.mem_cons.mp among with rfl | among
      · exact ⟨host, Store.get?_canonical known, rfl⟩
      · exact open_ host among
  | absent fresh unknown => exact ⟨sound.supplied, open_⟩
  | @skip host stack state text texts next primitive =>
      refine ⟨sound.supplied, fun h among => ?_⟩
      rcases List.mem_cons.mp among with rfl | among
      · exact open_ host List.mem_cons_self
      · exact open_ h (List.mem_cons_of_mem _ among)
  | @merge host source stack state text texts next mergeable named visited =>
      refine ⟨sound.supplied, fun h among => ?_⟩
      rcases List.mem_cons.mp among with rfl | among
      · exact open_ host List.mem_cons_self
      · exact open_ h (List.mem_cons_of_mem _ among)
  | @close host stack state members done targeted =>
      refine ⟨fun name e known => ?_, fun h among => open_ h (List.mem_cons_of_mem _ among)⟩
      rw [Store.get?_add] at known
      split at known
      · rename_i same
        obtain ⟨d, stored, _⟩ := sound.frames host List.mem_cons_self
        exact same ▸ sound.supplied _ d stored
      · exact sound.supplied name e known

end Step

namespace Steps

variable {scope : Scope} {roots : ImportPath → String → Prop} {supply : List String}
  {conf conf' : Conf}

/-- A run keeps a configuration sound. -/
theorem sound (steps : Steps scope roots conf conf')
    (within : ∀ name ∈ scope.names, name ∈ supply) (sound : conf.Sound supply) :
    conf'.Sound supply :=
  steps.keep (fun _ _ step kept => step.sound within kept) sound

/-- A run forgets no definition and no visit. -/
theorem grows (steps : Steps scope roots conf conf')
    (within : ∀ name ∈ scope.names, name ∈ supply) (sound : conf.Sound supply) :
    conf.state.Grows conf'.state := by
  induction steps with
  | refl => exact .refl _
  | tail earlier step ih => exact ih.trans (step.grows (Steps.sound earlier within sound))

end Steps

end ApiDocs
