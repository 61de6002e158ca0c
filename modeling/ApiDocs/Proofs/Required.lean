import ApiDocs.Proofs.Definer.Trace
import ApiDocs.Proofs.Regular

/-!
# Required types

`Required` is the least set of types that contains what the references of some calls resolve to and
is closed under the references of each declaration, looked up in the unit that declares it. In a
regular scope this is what a definer stores, neither more nor less, and it fails exactly when a
reference that is needed on the way does not resolve (`defineInOrder_stores_required`).

A definer does not follow the references of a declaration one by one: it looks up those of the
members that a host draws, and in the units that they come from. In a regular scope that makes no
difference (`Regular.reached_iff`).
-/

namespace ApiDocs

/-! ## References of declarations -/

/-- A reference of the definition itself: a type that it embeds, or one inside its members. -/
def Definition.Mentions (d : Definition) (text : String) : Prop :=
  text ∈ d.embedded ∧ Scope.isMergeable text = true ∨
    ∃ entry ∈ d.members, text ∈ entry.2.references

namespace Scope

/-- The types that calls with the references `roots` require. -/
inductive Required (scope : Scope) (roots : ImportPath → String → Prop) : Definition → Prop
  | root {referring : ImportPath} {text : String} {d : Definition} :
    roots referring text → scope.resolved? referring text = some d → Required scope roots d
  | step {text : String} {d e : Definition} :
    Required scope roots d → d.Mentions text → scope.resolved? d.importPath text = some e →
    Required scope roots e

/-- The references that are needed to find out what is required. -/
def Needed (scope : Scope) (roots : ImportPath → String → Prop) (referring : ImportPath)
    (text : String) : Prop :=
  roots referring text ∨ ∃ d, scope.Required roots d ∧ d.importPath = referring ∧ d.Mentions text

variable {scope : Scope} {roots : ImportPath → String → Prop} {supply : List String}

/-- What is inside of a required type is required. -/
theorem Required.of_contains {d v : Definition} (required : scope.Required roots d)
    (contains : scope.Contains d v) : scope.Required roots v := by
  induction contains with
  | refl => exact required
  | tail _ embeds ih =>
      obtain ⟨text, among, mergeable, resolves⟩ := embeds_iff.mp embeds
      exact .step ih (Or.inl ⟨among, mergeable⟩) resolves

namespace Regular

/-- In a regular scope what is required can be reached by a definer. -/
theorem reached_of_required (regular : scope.Regular roots) {d : Definition}
    (required : scope.Required roots d) : scope.Reached roots d := by
  induction required with
  | root called resolves => exact .root called resolves
  | @step text d e _ mentions resolves ih =>
      refine .step ih ⟨d.importPath, text, ?_, resolves⟩
      rcases mentions with ⟨among, mergeable⟩ | ⟨entry, among, refers⟩
      · exact .embedded among mergeable
      · have unit : referringUnit d.importPath entry.2 = d.importPath := by
          rw [referringUnit, (ih.offers regular.unchanging).origin_eq among]
          split <;> rfl
        have makes : scope.Makes d (referringUnit d.importPath entry.2) text :=
          .member .refl among refers
        rwa [unit] at makes

/-- A drawn member is looked up where it comes from, whoever draws it. -/
theorem referringUnit_eq (regular : scope.Regular roots) {v : Definition}
    (reached : scope.Reached roots v) {entry : String × Member} {m : Member}
    (among : entry ∈ v.members) (same : m.info = entry.2.info) (path : ImportPath) :
    referringUnit path m = v.importPath := by
  have offers := reached.offers regular.unchanging
  have filled := regular.nonempty _ offers.mem_paths
  rw [referringUnit, same, offers.origin_eq among, if_neg (by simp [filled])]

/-- What an open definition looks up is needed as soon as its declaration is required. -/
theorem needed_of_makes (regular : scope.Regular roots) {d : Definition} {referring : ImportPath}
    {text : String} (required : scope.Required roots d) (makes : scope.Makes d referring text) :
    scope.Needed roots referring text := by
  cases makes with
  | embedded among mergeable => exact Or.inr ⟨d, required, rfl, Or.inl ⟨among, mergeable⟩⟩
  | @member v entry _ contains among refers =>
      have inside := required.of_contains contains
      have reached := regular.reached_of_required inside
      rw [regular.referringUnit_eq reached among rfl]
      exact Or.inr ⟨v, inside, rfl, Or.inr ⟨entry, among, refers⟩⟩

theorem required_of_needed {referring : ImportPath} {text : String} {d : Definition}
    (needed : scope.Needed roots referring text)
    (resolves : scope.resolved? referring text = some d) : scope.Required roots d := by
  rcases needed with called | ⟨from_, required, rfl, mentions⟩
  · exact .root called resolves
  · exact .step required mentions resolves

/-- In a regular scope the types that a definer can reach are those that are required. -/
theorem reached_iff (regular : scope.Regular roots) {d : Definition} :
    scope.Reached roots d ↔ scope.Required roots d := by
  refine ⟨fun reached => ?_, regular.reached_of_required⟩
  induction reached with
  | root called resolves => exact .root called resolves
  | step _ refers ih =>
      obtain ⟨referring, text, makes, resolves⟩ := refers
      exact required_of_needed (regular.needed_of_makes ih makes) resolves

/-- In a regular scope a reference that a definer meets is one that has to resolve. -/
theorem needed_of_met (regular : scope.Regular roots) {referring : ImportPath} {text : String}
    (met : scope.Met roots referring text) : scope.Needed roots referring text := by
  rcases met with called | ⟨d, reached, makes⟩
  · exact Or.inl called
  · exact regular.needed_of_makes (regular.reached_iff.mp reached) makes

end Regular

end Scope

/-! ## Targets of members -/

/-- Every target inside the member is that of a stored type, which the reference resolves to. -/
def Member.Settled (scope : Scope) (store : Store) (referring : ImportPath) : Member → Prop
  | .scalar _ text target => ∀ unit, target = some unit → TypeText.isPrimitive text = false →
    ∃ d e, scope.resolved? referring text = some d ∧ d.target = unit ∧
      store.get? d.canonical = some e ∧ e.core = d.core
  | .collection _ element => element.Settled scope store referring
  | .mapping _ key value =>
    key.Settled scope store referring ∧ value.Settled scope store referring

/-- Every reference inside the member has the target that resolution gives it. -/
def Member.HasTargets (scope : Scope) (referring : ImportPath) : Member → Prop
  | .scalar _ text target => TypeText.isPrimitive text = false →
    ∃ d, scope.resolved? referring text = some d ∧ target = some d.target
  | .collection _ element => element.HasTargets scope referring
  | .mapping _ key value => key.HasTargets scope referring ∧ value.HasTargets scope referring

namespace Member

variable {scope : Scope} {store : Store} {referring : ImportPath} {m : Member}

/-- A bare member has no targets that could be wrong. -/
theorem settled_bare : m.bare.Settled scope store referring := by
  induction m with
  | scalar info text target => exact nofun
  | collection info element ih => exact ih
  | mapping info key value ihKey ihValue => exact ⟨ihKey, ihValue⟩

/-- Targets that are settled stay so, since stored definitions keep their cores. -/
theorem Settled.grow {state state' : Definer} (grows : state.Grows state')
    (settled : m.Settled scope state.store referring) :
    m.Settled scope state'.store referring := by
  induction m with
  | scalar info text target =>
      intro unit set needs
      obtain ⟨d, e, resolves, same, known, core⟩ := settled unit set needs
      obtain ⟨e', known', core'⟩ := grows.stored _ e known
      exact ⟨d, e', resolves, same, known', core'.trans core⟩
  | collection info element ih => exact ih settled
  | mapping info key value ihKey ihValue => exact ⟨ihKey settled.1, ihValue settled.2⟩

/-- Of a settled member without open references, every reference resolves to a stored type. -/
theorem Settled.resolves (settled : m.Settled scope store referring) (closed : m.unresolved = [])
    {text : String} (refers : text ∈ m.references) :
    ∃ d e, scope.resolved? referring text = some d ∧ store.get? d.canonical = some e ∧
      e.core = d.core := by
  induction m with
  | scalar info typeText target =>
      rw [references] at refers
      split at refers
      · cases refers
      · rename_i needs
        rw [List.mem_singleton.mp refers]
        cases target with
        | none => simp [unresolved, needs] at closed
        | some unit =>
            obtain ⟨d, e, resolves, _, known, core⟩ := settled unit rfl (by simpa using needs)
            exact ⟨d, e, resolves, known, core⟩
  | collection info element ih => exact ih settled closed refers
  | mapping info key value ihKey ihValue =>
      obtain ⟨closedKey, closedValue⟩ := List.append_eq_nil_iff.mp closed
      rcases List.mem_append.mp refers with inKey | inValue
      · exact ihKey settled.1 closedKey inKey
      · exact ihValue settled.2 closedValue inValue

/-- A settled member without open references has the targets that resolution gives. -/
theorem Settled.hasTargets (settled : m.Settled scope store referring)
    (closed : m.unresolved = []) : m.HasTargets scope referring := by
  induction m with
  | scalar info typeText target =>
      intro needs
      cases target with
      | none => simp [unresolved, needs] at closed
      | some unit =>
          obtain ⟨d, _, resolves, same, _⟩ := settled unit rfl needs
          exact ⟨d, resolves, congrArg some same.symm⟩
  | collection info element ih => exact ih settled closed
  | mapping info key value ihKey ihValue =>
      obtain ⟨closedKey, closedValue⟩ := List.append_eq_nil_iff.mp closed
      exact ⟨ihKey settled.1 closedKey, ihValue settled.2 closedValue⟩

end Member

/-! ## Definitions on the way -/

namespace Scope

variable {scope : Scope} {roots : ImportPath → String → Prop} {supply : List String}

/-- A copy of the declaration `d` whose targets are settled, and what it merged is stored. -/
structure Fills (scope : Scope) (roots : ImportPath → String → Prop) (state : Definer)
    (d e : Definition) : Prop where
  traces : scope.Traces roots d e
  settled : ∀ entry ∈ e.members,
    entry.2.Settled scope state.store (referringUnit e.importPath entry.2)
  merged : ∀ text ∈ d.embedded, isMergeable text = true → text ∈ e.embedded ∨
    ∃ u f, scope.resolved? d.importPath text = some u ∧ state.store.get? u.canonical = some f ∧
      f.core = u.core

/-- What a reference finds while it is met is stored, and the reference resolves to it. -/
theorem exists_of_names (clear : scope.Clear roots) {state : Definer}
    (traced : ∀ name e, state.store.get? name = some e → ∃ d, scope.Traces roots d e)
    {referring : ImportPath} {text : String} (met : scope.Met roots referring text)
    {e : Definition} (named : scope.Names state.store referring text e) :
    ∃ d, scope.resolved? referring text = some d ∧ state.store.get? d.canonical = some e ∧
      e.core = d.core := by
  obtain ⟨path, candidate, known⟩ := named
  obtain ⟨d, traces⟩ := traced _ e known
  refine ⟨d, traces.resolves clear met ⟨path, candidate, known⟩, ?_, traces.core⟩
  rw [← traces.canonical_eq]
  exact Store.get?_canonical known

/-- Setting the targets of a member settles it, if its references are met. -/
theorem Targets.settled (clear : scope.Clear roots) {state : Definer} {referring : ImportPath}
    {m m' : Member} (targeted : scope.Targets state referring m m')
    (traced : ∀ name e, state.store.get? name = some e → ∃ d, scope.Traces roots d e)
    (met : ∀ text ∈ m.unresolved, scope.Met roots referring text)
    (settled : m.Settled scope state.store referring) :
    m'.Settled scope state.store referring := by
  induction targeted with
  | kept _ => exact settled
  | @found info text e needs named visited =>
      intro unit set _
      cases set
      have metText := met text (by simp [Member.unresolved, needs])
      obtain ⟨d, resolves, known, core⟩ := exists_of_names clear traced metText named
      exact ⟨d, e, resolves, (Definition.target_eq_of_core core).symm, known, core⟩
  | collection _ ih => exact ih met settled
  | mapping _ _ ihKey ihValue =>
      exact ⟨ihKey (fun text open_ => met text (List.mem_append_left _ open_)) settled.1,
        ihValue (fun text open_ => met text (List.mem_append_right _ open_)) settled.2⟩

/-- In a regular scope it lasts that stored and open definitions fill the declarations they come
from: their members are settled, and each type they embed is stored or still to be merged. -/
theorem lasting_fills (regular : scope.Regular roots) (supply : List String) :
    Lasting scope roots supply fun state e => ∃ d, scope.Fills roots state d e where
  grow grows fills := by
    obtain ⟨d, traces, settled, merged⟩ := fills
    refine ⟨d, traces, fun entry among => (settled entry among).grow grows, ?_⟩
    intro text among mergeable
    refine (merged text among mergeable).imp_right ?_
    rintro ⟨u, f, resolves, known, core⟩
    obtain ⟨f', known', core'⟩ := grows.stored _ f known
    exact ⟨u, f', resolves, known', core'.trans core⟩
  resolve {conf referring text d journal} _ all asks resolves := by
    have traced : ∀ host ∈ conf.stack, ∃ d, scope.Traces roots d host := fun host among =>
      (all.opened host among).imp fun _ fills => fills.traces
    have traces := (traces_of_resolve regular.unchanging traced asks resolves).2
    have bare := (traces.reached.offers regular.unchanging).bareMembers_eq
    refine ⟨d, traces, fun entry among => ?_, fun text among _ => Or.inl among⟩
    rw [← bare] at among
    obtain ⟨original, _, rfl⟩ := List.mem_map.mp among
    exact Member.settled_bare
  skip {state host text texts} next primitive fills := by
    obtain ⟨d, traces, settled, merged⟩ := fills
    refine ⟨d, traces.skip next, settled, fun other among mergeable => ?_⟩
    refine (merged other among mergeable).imp_left fun later => ?_
    rw [next] at later
    rcases List.mem_cons.mp later with rfl | later
    · rw [primitive] at mergeable
      cases mergeable
    · exact later
  merge {conf host source stack text texts} _ all top next mergeable named := by
    obtain ⟨d, traces, settled, merged⟩ := all.opened host (top ▸ List.mem_cons_self)
    obtain ⟨path, candidate, known⟩ := named
    obtain ⟨u, tracesSource, settledSource, _⟩ := all.stored _ source known
    obtain ⟨among, resolves⟩ := traces.resolves_embedded regular.clear tracesSource next mergeable
      ⟨path, candidate, known⟩
    have embeds : scope.Embeds d u := embeds_iff.mpr ⟨text, among, mergeable, resolves⟩
    obtain ⟨taken, joined, drawn⟩ := mergeMembers_eq_append host.members source.members
    refine ⟨d, traces.merge tracesSource embeds next, fun entry present => ?_,
      fun other listed canMerge => ?_⟩
    · dsimp only at present
      rw [joined] at present
      rcases List.mem_append.mp present with own | new
      · exact settled entry own
      · -- A drawn member is looked up in the unit that it comes from, in both definitions.
        obtain ⟨v, contains, member⟩ := tracesSource.exists_member (drawn entry new)
        have reached := tracesSource.reached.contains contains
        have unit := regular.referringUnit_eq reached member (Member.info_bare entry.2).symm
        have theirs := settledSource entry (drawn entry new)
        rw [unit] at theirs ⊢
        exact theirs
    · rcases merged other listed canMerge with later | stored
      · rw [next] at later
        rcases List.mem_cons.mp later with rfl | later
        · refine Or.inr ⟨u, source, resolves, ?_, tracesSource.core⟩
          rw [← tracesSource.canonical_eq]
          exact Store.get?_canonical known
        · exact Or.inl later
      · exact Or.inr stored
  close {conf host stack members} _ all top done targeted := by
    obtain ⟨d, traces, settled, merged⟩ := all.opened host (top ▸ List.mem_cons_self)
    refine ⟨d, traces.close targeted, fun entry' present => ?_, merged⟩
    obtain ⟨entry, among, _, targets⟩ := targeted.exists_targets present
    have unit : referringUnit host.importPath entry'.2 = referringUnit host.importPath entry.2 := by
      rw [referringUnit, referringUnit, ← Member.info_bare entry'.2, targets.bare_eq,
        Member.info_bare]
    dsimp only
    rw [unit]
    refine targets.settled regular.clear
      (fun name e known => (all.stored name e known).imp fun _ fills => fills.traces)
      (fun text open_ => ?_) (settled entry among)
    have asks : Asks roots (host :: stack) (referringUnit host.importPath entry.2) text :=
      .member done among open_
    exact Or.inr ⟨d, traces.reached, traces.makes_of_asks asks⟩

/-! ## Finished runs -/

/-- All that a declaration mentions is stored once its copy is finished. -/
theorem Fills.exists_of_mentions (regular : scope.Regular roots) {state : Definer}
    {d e : Definition} (fills : scope.Fills roots state d e) (finished : e.Finished)
    {text : String} (mentions : d.Mentions text) :
    ∃ u f, scope.resolved? d.importPath text = some u ∧
      state.store.get? u.canonical = some f ∧ f.core = u.core := by
  rcases mentions with ⟨among, mergeable⟩ | ⟨entry, among, refers⟩
  · refine (fills.merged text among mergeable).resolve_left fun later => ?_
    rw [finished.merged] at later
    cases later
  · obtain ⟨drawn, whole, _⟩ := fills.traces.members
    have kept : entry ∈ bareMembers e.members := by
      rw [whole]
      exact List.mem_append_left _ among
    obtain ⟨original, present, rfl⟩ := List.mem_map.mp kept
    have settled := fills.settled original present
    rw [regular.referringUnit_eq fills.traces.reached among (Member.info_bare original.2).symm]
      at settled
    rw [Member.references_bare] at refers
    exact settled.resolves (finished.targeted original present) refers

/-- The state at the end of calls: stored definitions are finished, and references of the calls
found theirs. -/
structure Settles (scope : Scope) (roots : ImportPath → String → Prop) (state : Definer) :
    Prop where
  stored : ∀ name e, state.store.get? name = some e →
    e.Finished ∧ ∃ d, scope.Fills roots state d e
  called : ∀ referring text, roots referring text →
    ∃ d f, scope.resolved? referring text = some d ∧ state.store.get? d.canonical = some f ∧
      f.core = d.core

namespace Settles

variable {state : Definer}

/-- What is stored under the name of a required type is the finished copy of that type. -/
theorem fills_of_core (settles : scope.Settles roots state) (regular : scope.Regular roots)
    {d f : Definition} (required : scope.Required roots d)
    (known : state.store.get? d.canonical = some f) (core : f.core = d.core) :
    f.Finished ∧ scope.Fills roots state d f := by
  obtain ⟨finished, d', fills⟩ := settles.stored _ f known
  have declared := (regular.reached_of_required required).declared regular.unchanging
  cases (fills.traces.copies regular.unchanging).unique ⟨declared, core⟩
  exact ⟨finished, fills⟩

/-- Each required type has a finished copy in the store. -/
theorem exists_of_required (settles : scope.Settles roots state) (regular : scope.Regular roots)
    {d : Definition} (required : scope.Required roots d) :
    ∃ f, state.store.get? d.canonical = some f ∧ f.Finished ∧ scope.Fills roots state d f := by
  induction required with
  | @root referring text d called resolves =>
      obtain ⟨d', f, resolves', known, core⟩ := settles.called referring text called
      cases resolves.symm.trans resolves'
      exact ⟨f, known, settles.fills_of_core regular (.root called resolves) known core⟩
  | @step text d e required mentions resolves ih =>
      obtain ⟨f, _, finished, fills⟩ := ih
      obtain ⟨u, g, resolves', known, core⟩ := fills.exists_of_mentions regular finished mentions
      cases resolves.symm.trans resolves'
      exact ⟨g, known, settles.fills_of_core regular (.step required mentions resolves) known core⟩

/-- In a settled state every reference resolves that has to. -/
theorem resolves_of_needed (settles : scope.Settles roots state) (regular : scope.Regular roots)
    {referring : ImportPath} {text : String} (needed : scope.Needed roots referring text) :
    ∃ d, scope.resolved? referring text = some d := by
  rcases needed with called | ⟨d, required, rfl, mentions⟩
  · obtain ⟨d, _, resolves, _⟩ := settles.called _ _ called
    exact ⟨d, resolves⟩
  · obtain ⟨f, _, finished, fills⟩ := settles.exists_of_required regular required
    obtain ⟨u, _, resolves, _⟩ := fills.exists_of_mentions regular finished mentions
    exact ⟨u, resolves⟩

/-- The stored names are those of the required types. -/
theorem mem_names_iff (settles : scope.Settles roots state) (regular : scope.Regular roots)
    {name : String} :
    name ∈ state.store.names ↔ ∃ d, scope.Required roots d ∧ d.canonical = name := by
  constructor
  · intro present
    obtain ⟨e, known⟩ := Table.exists_get?_of_mem_keys present
    obtain ⟨_, d, fills⟩ := settles.stored name e known
    refine ⟨d, regular.reached_iff.mp fills.traces.reached, ?_⟩
    rw [← fills.traces.canonical_eq]
    exact Store.canonical_of_get? known
  · rintro ⟨d, required, rfl⟩
    obtain ⟨f, known, _⟩ := settles.exists_of_required regular required
    exact Table.mem_keys_of_get? known

end Settles

/-- A reference that has got its target is stored. -/
theorem Targets.exists_names {state : Definer} {referring : ImportPath} {m m' : Member}
    (targeted : scope.Targets state referring m m') {text : String} (open_ : text ∈ m.unresolved) :
    ∃ e, scope.Names state.store referring text e := by
  induction targeted with
  | kept set =>
      rw [Member.unresolved, if_pos set] at open_
      cases open_
  | @found info typeText e needs named _ =>
      have same : text = typeText := by simpa [Member.unresolved, needs] using open_
      exact ⟨e, same ▸ named⟩
  | collection _ ih => exact ih open_
  | mapping _ _ ihKey ihValue =>
      rcases List.mem_append.mp open_ with inKey | inValue
      · exact ihKey inKey
      · exact ihValue inValue

end Scope

namespace Definer

variable {scope : Scope} {calls : List (ImportPath × Member)} {journal : Journal}

theorem exists_names_of_called {left : Definer} {members : List Member}
    (targeted : List.Forall₂ (fun call m' => scope.Targets left call.1 call.2 m') calls members)
    {referring : ImportPath} {text : String} (called : Called calls referring text) :
    ∃ e, scope.Names left.store referring text e := by
  obtain ⟨call, among, rfl, open_⟩ := called
  induction targeted with
  | nil => cases among
  | cons here _ ih =>
      rcases List.mem_cons.mp among with rfl | later
      · exact here.exists_names open_
      · exact ih later

/-- Calls that succeed settle what they look up, and set the targets of their members. -/
theorem settles_of_defineInOrder (regular : scope.Regular (Called calls)) {members : List Member}
    {left : Definer} (ran : defineInOrder scope calls { journal } = (.ok members, left)) :
    scope.Settles (Called calls) left ∧
      List.Forall₂ (fun call m' => m'.bare = call.2.bare ∧
        (call.2.bare = call.2 → m'.HasTargets scope call.1)) calls members := by
  obtain ⟨reachable, targeted⟩ := (defineInOrder_ends scope calls journal).ok ran
  have all := reachable.all (Scope.lasting_fills regular _)
  have traced : ∀ name e, left.store.get? name = some e →
      ∃ d, scope.Traces (Called calls) d e :=
    fun name e known => (all.stored name e known).imp fun _ fills => fills.traces
  refine ⟨⟨fun name e known => ⟨(reachable.finished known).2, all.stored name e known⟩, ?_⟩, ?_⟩
  · intro referring text called
    obtain ⟨e, named⟩ := exists_names_of_called targeted called
    obtain ⟨d, resolves, known, core⟩ :=
      Scope.exists_of_names regular.clear traced (Or.inl called) named
    exact ⟨d, e, resolves, known, core⟩
  · have each := (List.forall₂_and_left calls members).mpr ⟨fun _ among => among, targeted⟩
    refine each.imp fun call m' ⟨among, targets⟩ => ⟨targets.bare_eq, fun bare => ?_⟩
    have met : ∀ text ∈ call.2.unresolved, scope.Met (Called calls) call.1 text :=
      fun text open_ => Or.inl ⟨call, among, rfl, open_⟩
    have settled : call.2.Settled scope left.store call.1 := by
      rw [← bare]
      exact Member.settled_bare
    exact (targets.settled regular.clear traced met settled).hasTargets
      targets.unresolved_eq_nil

/-- Calls in a regular scope fail only for references that do not resolve. -/
theorem exists_defineInOrder (regular : scope.Regular (Called calls))
    (resolves : ∀ referring text, scope.Needed (Called calls) referring text →
      ∃ d, scope.resolved? referring text = some d) (journal : Journal) :
    ∃ members left, defineInOrder scope calls { journal } = (.ok members, left) := by
  cases ran : defineInOrder scope calls { journal } with
  | mk result left =>
      cases result with
      | ok members => exact ⟨members, left, rfl⟩
      | error failure =>
          obtain ⟨stack, reachable, referring, text, past, asks, _, fails⟩ :=
            (defineInOrder_ends scope calls journal).error ran
          have all := reachable.traced regular.unchanging regular.clear
          have needed := regular.needed_of_met (Scope.met_of_asks all.opened asks)
          obtain ⟨d, found⟩ := resolves referring text needed
          exact absurd (Scope.resolve_of_resolved? regular.unchanging found past) (fails d)

/-- What is called for does not depend on the order of the calls. -/
theorem called_perm {calls' : List (ImportPath × Member)} (perm : calls'.Perm calls) :
    Called calls' = Called calls := by
  funext referring text
  exact propext (exists_congr fun call => and_congr_left' perm.mem_iff)

end Definer

/-! ## Exactly what is required -/

/-- In a regular scope calls succeed if and only if every reference resolves that is needed to find
what they require. The store then has the required types and no others, in whatever order the calls
are made, all of them finished, and every reference has the target that resolution gives it. -/
theorem defineInOrder_stores_required (scope : Scope) (calls : List (ImportPath × Member))
    (regular : scope.Regular (Definer.Called calls)) (journal : Journal) :
    ((∃ members left, Definer.defineInOrder scope calls { journal } = (.ok members, left)) ↔
      ∀ referring text, scope.Needed (Definer.Called calls) referring text →
        ∃ d, scope.resolved? referring text = some d) ∧
    ∀ members left, Definer.defineInOrder scope calls { journal } = (.ok members, left) →
      (∀ name, name ∈ left.store.names ↔
        ∃ d, scope.Required (Definer.Called calls) d ∧ d.canonical = name) ∧
      (∀ calls' : List (ImportPath × Member), calls'.Perm calls → ∀ journal', ∃ members' left',
        Definer.defineInOrder scope calls' { journal := journal' } = (.ok members', left') ∧
        left'.store.names = left.store.names) ∧
      (∀ name e, left.store.get? name = some e →
        (∃ d, scope.Required (Definer.Called calls) d ∧ d.canonical = name ∧ e.core = d.core) ∧
        ∀ entry ∈ e.members,
          entry.2.HasTargets scope (Scope.referringUnit e.importPath entry.2)) ∧
      List.Forall₂ (fun call member => member.bare = call.2.bare ∧
        (call.2.bare = call.2 → member.HasTargets scope call.1)) calls members := by
  refine ⟨⟨?_, fun resolves => Definer.exists_defineInOrder regular resolves journal⟩,
    fun members left ran => ?_⟩
  · rintro ⟨members, left, ran⟩ referring text needed
    exact (Definer.settles_of_defineInOrder regular ran).1.resolves_of_needed regular needed
  obtain ⟨settles, targeted⟩ := Definer.settles_of_defineInOrder regular ran
  refine ⟨fun name => settles.mem_names_iff regular, ?_, fun name e known => ⟨?_, ?_⟩, targeted⟩
  · intro calls' perm journal'
    have same := Definer.called_perm perm
    have regular' : scope.Regular (Definer.Called calls') := same ▸ regular
    obtain ⟨members', left', ran'⟩ := Definer.exists_defineInOrder regular'
      (fun referring text needed => settles.resolves_of_needed regular (same ▸ needed)) journal'
    have settles' := (Definer.settles_of_defineInOrder regular' ran').1
    refine ⟨members', left', ran',
      left'.store.ascending.keys_eq left.store.ascending fun name => ?_⟩
    exact (settles'.mem_names_iff regular').trans (same ▸ (settles.mem_names_iff regular).symm)
  · obtain ⟨_, d, fills⟩ := settles.stored name e known
    refine ⟨d, regular.reached_iff.mp fills.traces.reached, ?_, fills.traces.core⟩
    rw [← fills.traces.canonical_eq, Store.canonical_of_get? known]
  · obtain ⟨finished, d, fills⟩ := settles.stored name e known
    exact fun entry among => (fills.settled entry among).hasTargets (finished.targeted entry among)

/-- Orders and items that refer to each other. An order embeds an entity of another unit, whose tag
is not the tag of orders. -/
def orderScope : Scope where
  graph := ⟨[
    ("app", { importPath := "app", name := "app", imports := [("lib/base", ["base"])] }),
    ("lib/base", { importPath := "lib/base", name := "base", imports := [] })]⟩
  loader := .fixed [
    ("app", [{
      name := "app"
      imports := [{ path := "lib/base" }]
      types := [
        { name := "Order"
          fields :=
            [{ typeText := "base.Entity" }, { name := some "items", typeText := "[]Item" }] },
        { name := "Item", fields := [{ name := some "order", typeText := "*Order" }] },
        { name := "Tag", fields := [{ name := some "items", typeText := "[]Item" }] }] }]),
    ("lib/base", [{
      name := "base"
      types := [
        { name := "Entity", fields := [{ name := some "tag", typeText := "Tag" }] },
        { name := "Tag", fields := [{ name := some "text", typeText := "String" }] }] }])]

/-- A list of items, and an entity. -/
def orderCalls : List (ImportPath × Member) :=
  [("app", .collection {} (.scalar {} "Item" none)), ("lib/base", .scalar {} "Entity" none)]

/-- The two calls require four types, and store just these in the other order too. -/
theorem defineInOrder_stores_required_orders :
    orderScope.Regular (Definer.Called orderCalls) ∧
    (∀ referring text, orderScope.Needed (Definer.Called orderCalls) referring text →
      ∃ d, orderScope.resolved? referring text = some d) ∧
    (∀ name, name ∈ ["app.Item", "app.Order", "lib.base.Entity", "lib.base.Tag"] ↔
      ∃ d, orderScope.Required (Definer.Called orderCalls) d ∧ d.canonical = name) ∧
    ∃ members left, Definer.defineInOrder orderScope orderCalls.reverse {} = (.ok members, left) ∧
      left.store.names = ["app.Item", "app.Order", "lib.base.Entity", "lib.base.Tag"] := by
  have regular : orderScope.Regular (Definer.Called orderCalls) :=
    .of_fixed (by decide +kernel) (by decide +kernel) (by decide +kernel) (by decide +kernel)
      (by decide +kernel)
  have stored : (Definer.defineInOrder orderScope orderCalls {}).1.toOption.map List.length =
        some 2 ∧
      (Definer.defineInOrder orderScope orderCalls {}).2.store.names =
        ["app.Item", "app.Order", "lib.base.Entity", "lib.base.Tag"] := by decide +kernel
  obtain ⟨succeeds, exactly⟩ := defineInOrder_stores_required orderScope orderCalls regular {}
  obtain ⟨members, left, ran, _⟩ := exists_of_toOption stored.1
  rw [ran] at stored
  obtain ⟨names, reordered, _⟩ := exactly members left ran
  obtain ⟨members', left', ran', same⟩ := reordered orderCalls.reverse (List.reverse_perm _) {}
  refine ⟨regular, succeeds.mp ⟨members, left, ran⟩, fun name => ?_, members', left', ran',
    same.trans stored.2⟩
  rw [← names name, stored.2]

end ApiDocs
