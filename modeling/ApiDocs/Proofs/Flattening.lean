import ApiDocs.Proofs.Definer.Nesting
import ApiDocs.Proofs.Regular

/-!
# Flattening

The full expansion of a type has its own members, then those of the expansion of each type that it
embeds, as far as they are not there yet (`Scope.Expansion`). A definer takes what is stored of an
embedded type. That is its final form, unless the embedded type is still open; then it is the bare
declaration, without what the embedded type embeds itself (`defineInOrder_flattens`). The members
come out complete if nothing of the kind can happen: no type inside embeds one that embeds others
and refers back to it (`Scope.Unhindered`).
-/

namespace ApiDocs

/-! ## Expansions -/

/-- The keys after each of the types has added those of the keys it gives that were missing. -/
inductive Merges (gives : Definition → List String → Prop) :
    List String → List Definition → List String → Prop
  | nil {keys : List String} : Merges gives keys [] keys
  | cons {keys added out : List String} {u : Definition} {us : List Definition} :
    gives u added → Merges gives (mergeKeys keys added) us out → Merges gives keys (u :: us) out

namespace Merges

variable {gives gives' : Definition → List String → Prop} {keys out added : List String}
  {us : List Definition} {u : Definition}

theorem snoc (merges : Merges gives keys us out) (given : gives u added) :
    Merges gives keys (us ++ [u]) (mergeKeys out added) := by
  induction merges with
  | nil => exact .cons given .nil
  | cons first _ ih => exact .cons first ih

theorem imp (merges : Merges gives keys us out)
    (weaker : ∀ u ∈ us, ∀ added, gives u added → gives' u added) : Merges gives' keys us out := by
  induction merges with
  | nil => exact .nil
  | @cons keys added out u us given _ ih =>
      refine .cons (weaker u List.mem_cons_self added given) (ih fun v later => ?_)
      exact weaker v (List.mem_cons_of_mem _ later)

end Merges

namespace Scope

variable (scope : Scope)

/-- The keys after each of the types has added its full expansion. -/
inductive Expands : List String → List Definition → List String → Prop
  | nil {keys : List String} : Expands keys [] keys
  | cons {keys added out : List String} {u : Definition} {us : List Definition} :
    Expands u.members.keys (scope.embeddedTypes u) added →
    Expands (mergeKeys keys added) us out → Expands keys (u :: us) out

/-- The keys of the full expansion of a definition. -/
def Expansion (d : Definition) : List String → Prop :=
  scope.Expands d.members.keys (scope.embeddedTypes d)

/-- No declared type embeds itself, directly or not. -/
def Acyclic : Prop :=
  ∀ d, scope.declared d.importPath d.name = .ok (some d) → ¬ Relation.TransGen scope.Embeds d d

/-- No type inside the definition embeds one that embeds others and refers back to it. -/
def Unhindered (d : Definition) : Prop :=
  ∀ v u, scope.Contains d v → scope.Embeds v u →
    scope.embeddedTypes u = [] ∨ ¬ scope.RefersBack u v

variable {scope}

theorem Expands.unique {keys out out' : List String} {us : List Definition}
    (expands : scope.Expands keys us out) (expands' : scope.Expands keys us out') : out = out' := by
  induction expands generalizing out' with
  | nil =>
      cases expands' with
      | nil => rfl
  | cons _ _ ihAdded ihRest =>
      cases expands' with
      | cons added' rest' =>
          cases ihAdded added'
          exact ihRest rest'

theorem expands_of_merges {keys out : List String} {us : List Definition}
    (merges : Merges scope.Expansion keys us out) : scope.Expands keys us out := by
  induction merges with
  | nil => exact .nil
  | cons given _ ih => exact .cons given ih

/-- Embedding is acyclic if some rank falls along it. -/
theorem acyclic_of_rank (unchanging : scope.loader.Unchanging) (rank : Definition → Nat)
    (falls : ∀ d u, scope.declared d.importPath d.name = .ok (some d) → scope.Embeds d u →
      rank u < rank d) : scope.Acyclic := by
  intro d declares cycle
  have along : ∀ {u : Definition}, Relation.TransGen scope.Embeds d u →
      rank u < rank d ∧ scope.declared u.importPath u.name = .ok (some u) := by
    intro u path
    have next : ∀ {v w : Definition}, scope.Embeds v w →
        scope.declared w.importPath w.name = .ok (some w) := by
      intro v w embeds
      obtain ⟨text, _, _, resolves⟩ := embeds_iff.mp embeds
      exact (declared_of_resolved? unchanging resolves).2.2
    induction path with
    | single embeds => exact ⟨falls d _ declares embeds, next embeds⟩
    | tail _ embeds ih => exact ⟨(falls _ _ ih.2 embeds).trans ih.1, next embeds⟩
  exact Nat.lt_irrefl _ (along cycle).1

/-- Whether nothing hinders a definition can be read off lists: `inside` holds all that it contains,
and `known` is closed under references. -/
theorem unhindered_of_lists (inside known : List Definition)
    (embedded : ∀ v ∈ inside, ∀ u ∈ scope.embeddedTypes v, u ∈ inside)
    (knownEmbedded : ∀ d ∈ known, ∀ u ∈ scope.embeddedTypes d, u ∈ known)
    (knownMembers : ∀ d ∈ known, ∀ v ∈ known, ∀ entry ∈ v.members, ∀ text ∈ entry.2.references,
      (scope.resolved? (referringUnit d.importPath entry.2) text).all (· ∈ known) = true)
    (free : ∀ v ∈ inside, ∀ u ∈ scope.embeddedTypes v,
      scope.embeddedTypes u = [] ∨ u ∈ known ∧ v ∉ known) {d : Definition} (among : d ∈ inside) :
    scope.Unhindered d := by
  have holds : ∀ {v : Definition}, scope.Contains d v → v ∈ inside := by
    intro v contains
    induction contains with
    | refl => exact among
    | tail _ embeds ih => exact embedded _ ih _ embeds
  have knows : ∀ {u v : Definition}, u ∈ known → scope.RefersBack u v → v ∈ known := by
    intro u v first back
    induction back with
    | refl => exact first
    | tail _ refers ih => exact mem_of_refers knownEmbedded knownMembers ih refers
  intro v u contains embeds
  exact (free v (holds contains) u embeds).imp_right fun ⟨first, outside⟩ back =>
    outside (knows first back)

theorem Unhindered.of_embeds {d u : Definition} (unhindered : scope.Unhindered d)
    (embeds : scope.Embeds d u) : scope.Unhindered u :=
  fun v w contains => unhindered v w (.head embeds contains)

end Scope

/-! ## What is merged -/

/-- The keys that an embedded type gives to a host: those of its final form, unless all calls are
for it, or those that it declares itself when it refers back to the host. -/
def Conf.Gives (scope : Scope) (roots : ImportPath → String → Prop) (conf : Conf)
    (host u : Definition) (added : List String) : Prop :=
  (¬ scope.Alone roots u ∧ ∃ e, conf.state.store.get? u.canonical = some e ∧ scope.Copies u e ∧
    conf.Closed u.canonical ∧ added = e.members.keys) ∨
  added = u.members.keys ∧ scope.RefersBack u host

/-- An open definition has its own keys and those of the texts that it merged so far. -/
def Conf.Underway (scope : Scope) (roots : ImportPath → String → Prop) (conf : Conf)
    (host : Definition) : Prop :=
  ∃ d merged, scope.Copies d host ∧ d.embedded = merged ++ host.embedded ∧
    Merges (conf.Gives scope roots d) d.members.keys (scope.typesOf d.importPath merged)
      host.members.keys

/-- A closed definition has its own keys and those of all that it embeds, and is the full expansion
if nothing hinders it. -/
def Conf.Complete (scope : Scope) (roots : ImportPath → String → Prop) (conf : Conf)
    (e : Definition) : Prop :=
  ∃ d, scope.Copies d e ∧
    Merges (conf.Gives scope roots d) d.members.keys (scope.embeddedTypes d) e.members.keys ∧
    (scope.Unhindered d → scope.Expansion d e.members.keys)

/-- Open definitions have the keys of what they merged so far, closed ones of all that they
embed. -/
structure Conf.Accounted (scope : Scope) (roots : ImportPath → String → Prop) (conf : Conf) :
    Prop where
  opened : ∀ host ∈ conf.stack, conf.Underway scope roots host
  closed : ∀ name e, conf.state.store.get? name = some e → conf.Closed name →
    conf.Complete scope roots e

section

variable {scope : Scope} {roots : ImportPath → String → Prop} {supply : List String}
  {conf conf' : Conf}

/-- What an embedded type gives, it gives after every further step: its final form is stored for
good. -/
theorem Step.gives (step : Step scope roots conf conf') {host u : Definition}
    {added : List String} (gives : conf.Gives scope roots host u added) :
    conf'.Gives scope roots host u added := by
  rcases gives with ⟨others, e, known, copies, closed, same⟩ | own
  · exact Or.inl ⟨others, e, step.get?_of_closed closed known, copies, step.closed closed, same⟩
  · exact Or.inr own

theorem Step.underway (step : Step scope roots conf conf') {host : Definition}
    (underway : conf.Underway scope roots host) : conf'.Underway scope roots host := by
  obtain ⟨d, merged, copies, whole, merges⟩ := underway
  exact ⟨d, merged, copies, whole, merges.imp fun _ _ _ gives => step.gives gives⟩

theorem Step.complete (step : Step scope roots conf conf') {e : Definition}
    (complete : conf.Complete scope roots e) : conf'.Complete scope roots e := by
  obtain ⟨d, copies, merges, full⟩ := complete
  exact ⟨d, copies, merges.imp fun _ _ _ gives => step.gives gives, full⟩

/-- What is merged without hindrance is the full expansion. -/
theorem Conf.Accounted.expansion {d : Definition} {keys : List String}
    (accounted : conf.Accounted scope roots)
    (merges : Merges (conf.Gives scope roots d) d.members.keys (scope.embeddedTypes d) keys)
    (unhindered : scope.Unhindered d) : scope.Expansion d keys := by
  refine Scope.expands_of_merges (merges.imp fun u among added gives => ?_)
  rcases gives with ⟨_, e, known, copies, closed, rfl⟩ | ⟨rfl, back⟩
  · obtain ⟨u', copies', _, complete⟩ := accounted.closed _ e known closed
    cases copies'.unique copies
    exact complete (unhindered.of_embeds among)
  · have bare := (unhindered d u .refl among).resolve_right fun no => no back
    rw [Scope.Expansion, bare]
    exact .nil

theorem Scope.TargetsAll.keys_eq {state : Definer} {path : ImportPath}
    {members members' : Table Member} (targeted : scope.TargetsAll state path members members') :
    members'.keys = members.keys := by
  rw [← keys_bareMembers, targeted.bareMembers_eq, keys_bareMembers]

/-! ### The steps that change a frame -/

/-- A primitive text is passed over without giving anything. -/
theorem Conf.Underway.skip {host : Definition} {text : String} {texts : List String}
    (underway : conf.Underway scope roots host) (next : host.embedded = text :: texts)
    (primitive : Scope.isMergeable text = false) :
    conf.Underway scope roots { host with embedded := texts } := by
  obtain ⟨d, merged, copies, whole, merges⟩ := underway
  refine ⟨d, merged ++ [text], copies, by rw [whole, next]; simp, ?_⟩
  have same : scope.typesOf d.importPath (merged ++ [text]) =
      scope.typesOf d.importPath merged := by
    simp [Scope.typesOf, List.filter_append, primitive]
  rw [same]
  exact merges

/-- What is stored of a visited type is what it gives: its final form if it is closed, and its bare
declaration if it is still open. -/
theorem Conf.Nested.gives {host source d u : Definition} {stack : List Definition}
    {state : Definer} (nested : Conf.Nested scope ⟨host :: stack, none, state⟩)
    (sound : Conf.Sound supply ⟨host :: stack, none, state⟩)
    (based : ∀ u, scope.Alone roots u → Conf.Based u ⟨host :: stack, none, state⟩)
    (copies : scope.Copies d host) (copiesSource : scope.Copies u source)
    (stored : state.store.get? source.canonical = some source)
    (visited : source.canonical ∈ state.defined) :
    Conf.Gives scope roots ⟨host :: stack, none, state⟩ d u source.members.keys := by
  rcases nested.closed_or_refersBack sound copies copiesSource stored visited
    with shut | ⟨rfl, back⟩
  · rw [Definition.canonical_eq_of_core copiesSource.2] at shut stored
    refine Or.inl ⟨fun alone => ?_, source, stored, copiesSource, shut, rfl⟩
    exact (based u alone).not_closed rfl shut
  · exact Or.inr ⟨rfl, back⟩

/-- The next text that is embedded adds what its type gives. -/
theorem Conf.Underway.merge {host source d u : Definition} {text : String} {texts : List String}
    (underway : conf.Underway scope roots host) (copies : scope.Copies d host)
    (next : host.embedded = text :: texts) (mergeable : Scope.isMergeable text = true)
    (resolves : scope.resolved? d.importPath text = some u)
    (gives : conf.Gives scope roots d u source.members.keys) :
    conf.Underway scope roots { host with
      members := Scope.mergeMembers host.members source.members
      embedded := texts } := by
  obtain ⟨d', merged, copies', whole, merges⟩ := underway
  cases copies'.unique copies
  refine ⟨d, merged ++ [text], copies, by rw [whole, next]; simp, ?_⟩
  have longer : scope.typesOf d.importPath (merged ++ [text]) =
      scope.typesOf d.importPath merged ++ [u] := by
    simp [Scope.typesOf, List.filter_append, mergeable, resolves]
  rw [longer, Scope.keys_mergeMembers]
  exact merges.snoc gives

/-- Once no text is left, the definition is complete. Targets do not change its keys. -/
theorem Conf.Accounted.complete_of_close {host : Definition} {state : Definer}
    {members : Table Member} (accounted : conf.Accounted scope roots) (among : host ∈ conf.stack)
    (done : host.embedded = [])
    (targeted : scope.TargetsAll state host.importPath host.members members) :
    conf.Complete scope roots { host with members } := by
  obtain ⟨d, merged, copies, whole, merges⟩ := accounted.opened host among
  rw [done, List.append_nil] at whole
  rw [← whole, ← targeted.keys_eq] at merges
  exact ⟨d, copies, merges, accounted.expansion merges⟩

/-- Every step keeps the account: a merge adds what the embedded type gives to the innermost open
definition, and closing it finds nothing left to add. -/
theorem Step.accounted (step : Step scope roots conf conf')
    (unchanging : scope.loader.Unchanging) (clear : scope.Clear roots) (sound : conf.Sound supply)
    (all : conf.All fun _ e => ∃ d, scope.Traces roots d e) (nested : conf.Nested scope)
    (based : ∀ u, scope.Alone roots u → conf.Based u) (orderly : conf.Orderly)
    (accounted : conf.Accounted scope roots) : conf'.Accounted scope roots := by
  have opened : ∀ host ∈ conf.stack, conf'.Underway scope roots host :=
    fun host among => step.underway (accounted.opened host among)
  have closed : ∀ name e, conf.state.store.get? name = some e → conf.Closed name →
      conf'.Complete scope roots e :=
    fun name e known shut => step.complete (accounted.closed name e known shut)
  cases step with
  | read journal => exact ⟨opened, closed⟩
  | hit asks found => exact ⟨opened, closed⟩
  | @miss stack state referring text d journal asks missed resolves =>
      refine ⟨opened, fun name e known shut => ?_⟩
      rw [Store.get?_add] at known
      split at known
      · rename_i same
        -- A closed name is stored, so it cannot be the one that was missing.
        obtain ⟨f, stored, _⟩ :=
          (orderly.visited name shut.1).resolve_left fun ⟨host, among, named⟩ =>
            shut.2 (List.mem_map.mpr ⟨host, among, named⟩)
        rw [← same, get?_of_miss missed resolves] at stored
        cases stored
      · exact closed name e known shut
  | pass visited => exact ⟨opened, closed⟩
  | @enter stack state name d fresh known =>
      have declared := nested.raw name d known fun shut => fresh shut.1
      refine ⟨fun host among => ?_, fun other e stored shut => ?_⟩
      · rcases List.mem_cons.mp among with rfl | among
        · exact ⟨host, [], ⟨declared, rfl⟩, rfl, .nil⟩
        · exact opened host among
      · refine closed other e stored ⟨?_, fun below => shut.2 (List.mem_cons_of_mem _ below)⟩
        rcases List.mem_cons.mp shut.1 with rfl | visited
        · exact absurd (Store.canonical_of_get? known ▸ List.mem_cons_self) shut.2
        · exact visited
  | @absent stack state name fresh unknown =>
      obtain ⟨d, known⟩ := orderly.waits name rfl
      cases unknown.symm.trans known
  | @skip host stack state text texts next primitive =>
      refine ⟨fun h among => ?_, closed⟩
      rcases List.mem_cons.mp among with rfl | among
      · exact (opened host List.mem_cons_self).skip next primitive
      · exact opened h (List.mem_cons_of_mem _ among)
  | @merge host source stack state text texts next mergeable named visited =>
      refine ⟨fun h among => ?_, closed⟩
      rcases List.mem_cons.mp among with rfl | among
      · obtain ⟨path, candidate, known⟩ := named
        obtain ⟨u, traces⟩ := all.stored _ source known
        obtain ⟨d, tracesHost⟩ := all.opened host List.mem_cons_self
        have copies := tracesHost.copies unchanging
        have resolves := (tracesHost.resolves_embedded clear traces next mergeable
          ⟨path, candidate, known⟩).2
        exact (opened host List.mem_cons_self).merge copies next mergeable resolves
          (nested.gives sound based copies (traces.copies unchanging) (Store.get?_canonical known)
            visited)
      · exact opened h (List.mem_cons_of_mem _ among)
  | @close host stack state members done targeted =>
      have whole := accounted.complete_of_close List.mem_cons_self done targeted
      refine ⟨fun h among => opened h (List.mem_cons_of_mem _ among), fun name e known shut => ?_⟩
      rw [Store.get?_add] at known
      split at known
      · cases known
        exact Step.complete (.close done targeted) whole
      · rename_i differs
        refine closed name e known ⟨shut.1, fun opened => ?_⟩
        rcases List.mem_cons.mp opened with same | below
        · exact differs same.symm
        · exact shut.2 below

/-- A definer keeps the account through a whole run. -/
theorem Conf.Reachable.accounted (reachable : conf.Reachable scope roots)
    (unchanging : scope.loader.Unchanging) (clear : scope.Clear roots) :
    conf.Accounted scope roots := by
  refine reachable.keep (fun journal => ⟨nofun, nofun⟩) fun _ _ before step accounted => ?_
  exact step.accounted unchanging clear before.sound (before.traced unchanging clear)
    (before.nested unchanging clear) (fun _ alone => before.based unchanging clear alone)
    before.orderly accounted

end

/-! ## Stored members -/

/-- After calls that succeed, the members of a stored type are its own and those that the types it
embeds give it, in order. Each gives all that it has in the end, unless it refers back to the host;
then it may be merged while it is still open, and gives only what it declares itself. It never gives
more if the calls are for it alone. Without types that refer back the members are the full
expansion, whatever the order of the calls. -/
theorem defineInOrder_flattens (scope : Scope) (unchanging : scope.loader.Unchanging)
    (calls : List (ImportPath × Member)) (clear : scope.Clear (Definer.Called calls))
    (journal : Journal) (members : List Member) (left : Definer)
    (ran : Definer.defineInOrder scope calls { journal } = (.ok members, left)) (name : String)
    (e : Definition) (known : left.store.get? name = some e) :
    ∃ d, scope.declared e.importPath e.name = .ok (some d) ∧
      Merges (fun u added =>
          (¬ scope.Alone (Definer.Called calls) u ∧
            ∃ f, left.store.get? u.canonical = some f ∧ f.importPath = u.importPath ∧
              f.name = u.name ∧ added = f.members.keys) ∨
          (added = u.members.keys ∧ scope.RefersBack u d))
        d.members.keys (scope.embeddedTypes d) e.members.keys ∧
      (scope.Unhindered d → ∀ keys, scope.Expansion d keys ↔ keys = e.members.keys) := by
  obtain ⟨reachable, _⟩ := (Definer.defineInOrder_ends scope calls journal).ok ran
  have visited := (reachable.finished known).1
  obtain ⟨d, ⟨declared, core⟩, merges, complete⟩ :=
    (reachable.accounted unchanging clear).closed name e known ⟨visited, List.not_mem_nil⟩
  refine ⟨d, ?_, merges.imp fun u among added gives => ?_,
    fun unhindered keys => ⟨fun full => ?_, ?_⟩⟩
  · rw [Definition.importPath_eq_of_core core, Definition.name_eq_of_core core]
    exact declared
  · rcases gives with ⟨others, f, stored, ⟨_, same⟩, _, rfl⟩ | own
    · exact Or.inl ⟨others, f, stored, Definition.importPath_eq_of_core same,
        Definition.name_eq_of_core same, rfl⟩
    · exact Or.inr own
  · exact Scope.Expands.unique full (complete unhindered)
  · rintro rfl
    exact complete unhindered

/-- A host with a part that has a part of its own; fields refer in circles. -/
def partTypes : List TypeDecl :=
  [{ name := "Host"
     fields := [{ name := some "own", typeText := "Host" }, { typeText := "Part" }] },
   { name := "Part"
     fields := [{ name := some "leaf", typeText := "Leaf" }, { typeText := "Base" }] },
   { name := "Base", fields := [{ name := some "id", typeText := "i64" }] },
   { name := "Leaf", fields := [{ name := some "next", typeText := "*Leaf" }] }]

/-- The definitions of some of the parts. -/
def partsNamed (names : List String) : List Definition :=
  names.filterMap ((Scope.single partTypes).resolved? "app")

theorem defineInOrder_flattens_parts :
    ∃ members left e d,
      Definer.defineInOrder (.single partTypes)
        [("app", .scalar {} "Leaf" none), ("app", .scalar {} "Host" none)] {} =
          (.ok members, left) ∧
      left.store.get? "app.Host" = some e ∧
      (Scope.single partTypes).declared e.importPath e.name = .ok (some d) ∧
      (Scope.single partTypes).Unhindered d ∧
      (Scope.single partTypes).Expansion d e.members.keys ∧
      e.members.keys = ["own", "leaf", "id"] := by
  have regular : (Scope.single partTypes).Regular
      (Definer.Called [("app", .scalar {} "Leaf" none), ("app", .scalar {} "Host" none)]) :=
    .of_fixed (by decide +kernel) (by decide +kernel) (by decide +kernel) (by decide +kernel)
      (by decide +kernel)
  have succeeds : (Definer.defineInOrder (.single partTypes)
      [("app", .scalar {} "Leaf" none), ("app", .scalar {} "Host" none)] {}).1.toOption.map
        List.length = some 2 := by decide +kernel
  have stored : ((Definer.defineInOrder (.single partTypes)
      [("app", .scalar {} "Leaf" none), ("app", .scalar {} "Host" none)] {}).2.store.get?
        "app.Host").map (fun e => (e.importPath, e.name, e.members.keys)) =
      some ("app", "Host", ["own", "leaf", "id"]) := by decide +kernel
  obtain ⟨members, left, ran, _⟩ := exists_of_toOption succeeds
  rw [ran] at stored
  obtain ⟨e, known, fields⟩ := Option.map_eq_some_iff.mp stored
  obtain ⟨d, declared, _, complete⟩ := defineInOrder_flattens _ regular.unchanging _
    regular.clear {} members left ran "app.Host" e known
  have unhindered : (Scope.single partTypes).Unhindered d := by
    refine Scope.unhindered_of_lists (partsNamed ["Host", "Part", "Base"])
      (partsNamed ["Part", "Base", "Leaf"]) (by decide +kernel) (by decide +kernel)
      (by decide +kernel) (by decide +kernel) ?_
    have listed : ((Scope.single partTypes).declared "app" "Host").toOption.join.all
        (· ∈ partsNamed ["Host", "Part", "Base"]) = true := by decide +kernel
    simp only [Prod.mk.injEq] at fields
    rw [fields.1, fields.2.1] at declared
    rw [declared] at listed
    exact of_decide_eq_true listed
  exact ⟨members, left, e, d, ran, known, declared, unhindered, (complete unhindered _).mpr rfl,
    by simpa using congrArg (·.2.2) fields⟩

/-- Embedding goes from `C` over `A` to `B`, and a field of `B` leads back to `C`. -/
def circleTypes : List TypeDecl :=
  [{ name := "A", fields := [{ name := some "a", typeText := "i64" }, { typeText := "B" }] },
   { name := "B", fields := [{ name := some "c", typeText := "C" }] },
   { name := "C", fields := [{ name := some "z", typeText := "i64" }, { typeText := "A" }] }]

/-- Defining `A` first opens `B` and then `C`, which finds `A` open and never gets the member of `B`
that belongs to its expansion. -/
theorem flattening_stops_at_open_host :
    (Scope.single circleTypes).Acyclic ∧
    ∃ members left e d,
      Definer.defineInOrder (.single circleTypes) [("app", .scalar {} "A" none)] {} =
        (.ok members, left) ∧
      left.store.get? "app.C" = some e ∧
      (Scope.single circleTypes).declared "app" "C" = .ok (some d) ∧
      e.members.keys = ["z", "a"] ∧
      (Scope.single circleTypes).Expansion d ["z", "a", "c"] := by
  have acyclic : (Scope.single circleTypes).Acyclic := by
    refine Scope.acyclic_of_rank (Loader.unchanging_fixed _) (["B", "A", "C"].idxOf ·.name) ?_
    intro d u declares embeds
    have falls : ∀ name ∈ circleTypes.map (·.name),
        ((Scope.single circleTypes).declared "app" name).toOption.join.all (fun d =>
          ((Scope.single circleTypes).embeddedTypes d).all fun u =>
            ["B", "A", "C"].idxOf u.name < ["B", "A", "C"].idxOf d.name) = true := by
      decide +kernel
    obtain ⟨path, listed⟩ := Scope.mem_of_declared_single declares
    have fallsHere := falls d.name listed
    rw [← path, declares] at fallsHere
    exact of_decide_eq_true (List.all_eq_true.mp fallsHere u embeds)
  have succeeds : (Definer.defineInOrder (.single circleTypes)
      [("app", .scalar {} "A" none)] {}).1.toOption.map List.length = some 1 := by decide +kernel
  have stored : ((Definer.defineInOrder (.single circleTypes)
      [("app", .scalar {} "A" none)] {}).2.store.get? "app.C").map (·.members.keys) =
      some ["z", "a"] := by decide +kernel
  -- The keys of `C`, then of what it embeds, layer by layer.
  have layers : ((Scope.single circleTypes).declared "app" "C").toOption.join.map (fun c =>
      let first := (Scope.single circleTypes).embeddedTypes c
      let second := first.flatMap (Scope.single circleTypes).embeddedTypes
      (c.members.keys, first.map (·.members.keys), second.map (·.members.keys),
        (second.flatMap (Scope.single circleTypes).embeddedTypes).length)) =
      some (["z"], [["a"]], [["c"]], 0) := by decide +kernel
  obtain ⟨members, left, ran, _⟩ := exists_of_toOption succeeds
  rw [ran] at stored
  obtain ⟨e, known, keys⟩ := Option.map_eq_some_iff.mp stored
  obtain ⟨c, found, shape⟩ := Option.map_eq_some_iff.mp layers
  have declared : (Scope.single circleTypes).declared "app" "C" = .ok (some c) := by
    cases given : (Scope.single circleTypes).declared "app" "C" with
    | error failure =>
        rw [given] at found
        cases found
    | ok result =>
        rw [given] at found
        exact congrArg _ found
  refine ⟨acyclic, members, left, e, c, ran, known, declared, keys, ?_⟩
  simp only [Prod.mk.injEq, List.map_eq_cons_iff, List.map_eq_nil_iff,
    List.length_eq_zero_iff] at shape
  obtain ⟨keysC, ⟨a, _, embedsA, keysA, rfl⟩, ⟨b, _, embedsB, keysB, rfl⟩, embedsNone⟩ := shape
  rw [embedsB, List.flatMap_singleton] at embedsNone
  rw [embedsA, List.flatMap_singleton] at embedsB
  have expandsB : (Scope.single circleTypes).Expansion b ["c"] := by
    rw [Scope.Expansion, embedsNone, keysB]
    exact .nil
  have expandsA : (Scope.single circleTypes).Expansion a ["a", "c"] := by
    rw [Scope.Expansion, embedsB, keysA]
    exact .cons expandsB .nil
  rw [Scope.Expansion, embedsA, keysC]
  exact .cons expandsA .nil

end ApiDocs
