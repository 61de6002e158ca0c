import ApiDocs.Proofs.Definer.Invariant
import ApiDocs.Proofs.Reachability

/-!
# Where definitions come from

With unchanging answers every copy of a definition that a definer holds, stored or open, is a copy
of one declaration (`Copies`). If no name misleads, the copy traces back to a declaration that can
be reached from the calls (`Traces`): it starts with the declared members and goes on with members
that the declaration draws from what it contains, and what it has yet to merge is a tail of what the
declaration embeds. A reference that is looked up then finds a copy of what it resolves to
(`Traces.resolves`).
-/

namespace ApiDocs

/-! ## Declarations -/

/-- The members without targets. -/
def bareMembers (members : Table Member) : Table Member :=
  members.map fun entry => (entry.1, entry.2.bare)

theorem keys_bareMembers (members : Table Member) : (bareMembers members).keys = members.keys := by
  rw [bareMembers, Table.keys, Table.keys, List.map_map]
  rfl

theorem mem_bareMembers {members : Table Member} {entry : String × Member}
    (among : entry ∈ members) : (entry.1, entry.2.bare) ∈ bareMembers members :=
  List.mem_map_of_mem among

namespace Scope

variable {scope : Scope}

/-- What a merge adds behind the members that there are is drawn from the source. -/
theorem exists_drawn_mergeMembers {own drawn host source : Table Member}
    {holds : String × Member → Prop} (whole : bareMembers host = own ++ drawn)
    (inside : ∀ entry ∈ drawn, holds entry)
    (given : ∀ entry ∈ source, holds (entry.1, entry.2.bare)) :
    ∃ drawn', bareMembers (mergeMembers host source) = own ++ drawn' ∧
      ∀ entry ∈ drawn', holds entry := by
  obtain ⟨taken, joined, drawnFrom⟩ := mergeMembers_eq_append host source
  refine ⟨drawn ++ bareMembers taken, ?_, fun entry among => ?_⟩
  · rw [joined, bareMembers, List.map_append, ← List.append_assoc, ← whole]
    rfl
  · rcases List.mem_append.mp among with old | new
    · exact inside entry old
    · obtain ⟨original, present, rfl⟩ := List.mem_map.mp new
      exact given original (drawnFrom original present)

/-- A declaration comes without targets. -/
theorem Offers.bareMembers_eq {path : ImportPath} {name : String} {d : Definition}
    (offers : scope.Offers path name d) : bareMembers d.members = d.members := by
  obtain ⟨_, _, _, group, decl, values, _, _, rfl⟩ := offers
  have bare : ∀ entry ∈ (decl.definition group.name path).members,
      (entry.1, entry.2.bare) = entry := by
    intro entry among
    obtain ⟨field, _, given⟩ := (decl.fields_of_definition group.name path).1 entry among
    obtain ⟨info, built, _⟩ := Member.of_member? given
    rw [built, Member.bare_ofTypeText, ← built]
  exact (List.map_congr_left bare).trans (List.map_id _)

/-- Getting targets changes nothing but targets. -/
theorem TargetsAll.bareMembers_eq {state : Definer} {path : ImportPath}
    {members members' : Table Member} (targeted : scope.TargetsAll state path members members') :
    bareMembers members' = bareMembers members := by
  induction targeted with
  | nil => rfl
  | cons here _ ih =>
      rw [bareMembers, bareMembers, List.map_cons, List.map_cons, here.1, here.2.bare_eq]
      exact congrArg _ ih

/-- It lasts that each definition is a copy of a declaration. -/
theorem lasting_copies (unchanging : scope.loader.Unchanging)
    (roots : ImportPath → String → Prop) (supply : List String) :
    Lasting scope roots supply fun _ e => ∃ d, scope.Copies d e where
  grow _ copies := copies
  resolve {conf referring text d journal} _ _ _ resolves := by
    have resolved := resolved?_of_resolve unchanging resolves
    exact ⟨d, (declared_of_resolved? unchanging resolved).2.2, rfl⟩
  skip _ _ copies := copies
  merge {conf host source stack text texts} _ all top _ _ _ :=
    all.opened host (top ▸ List.mem_cons_self)
  close {conf host stack members} _ all top _ _ := all.opened host (top ▸ List.mem_cons_self)

/-! ## Traces -/

/-- A copy `e` traces back to the declaration `d`, which is reached. -/
structure Traces (scope : Scope) (roots : ImportPath → String → Prop) (d e : Definition) :
    Prop where
  reached : scope.Reached roots d
  core : e.core = d.core
  members : ∃ drawn, bareMembers e.members = d.members ++ drawn ∧
    ∀ entry ∈ drawn, ∃ v, scope.Contains d v ∧ entry ∈ v.members
  embedded : ∃ merged, d.embedded = merged ++ e.embedded

variable {roots : ImportPath → String → Prop} {supply : List String} {d e : Definition}

theorem Traces.canonical_eq (traces : scope.Traces roots d e) : e.canonical = d.canonical :=
  Definition.canonical_eq_of_core traces.core

theorem Traces.importPath_eq (traces : scope.Traces roots d e) : e.importPath = d.importPath :=
  Definition.importPath_eq_of_core traces.core

/-- What traces back to a declaration is a copy of it. -/
theorem Traces.copies (unchanging : scope.loader.Unchanging) (traces : scope.Traces roots d e) :
    scope.Copies d e :=
  ⟨traces.reached.declared unchanging, traces.core⟩

/-- A member of a copy is, targets aside, a member of something that the declaration contains. -/
theorem Traces.exists_member (traces : scope.Traces roots d e) {entry : String × Member}
    (among : entry ∈ e.members) :
    ∃ v, scope.Contains d v ∧ (entry.1, entry.2.bare) ∈ v.members := by
  obtain ⟨drawn, whole, inside⟩ := traces.members
  have present := mem_bareMembers among
  rw [whole] at present
  rcases List.mem_append.mp present with own | taken
  · exact ⟨d, .refl, own⟩
  · exact inside _ taken

/-- What an open copy asks for is a reference of its declaration. -/
theorem Traces.makes_of_asks (traces : scope.Traces roots d e) {stack : List Definition}
    {referring : ImportPath} {text : String} (asks : Asks roots (e :: stack) referring text) :
    scope.Makes d referring text := by
  cases asks with
  | embedded next mergeable =>
      obtain ⟨merged, whole⟩ := traces.embedded
      rw [traces.importPath_eq]
      refine .embedded ?_ mergeable
      rw [whole, next]
      exact List.mem_append_right _ List.mem_cons_self
  | @member _ _ entry _ done among open_ =>
      obtain ⟨v, contains, present⟩ := traces.exists_member among
      have unit : referringUnit e.importPath entry.2 =
          referringUnit d.importPath entry.2.bare := by
        rw [referringUnit, referringUnit, Member.info_bare, traces.importPath_eq]
      rw [unit]
      refine .member contains present ?_
      rw [Member.references_bare]
      exact Member.mem_references_of_unresolved open_

/-- References asked for while all open definitions are traced are references that are met. -/
theorem met_of_asks {stack : List Definition}
    (traced : ∀ host ∈ stack, ∃ d, scope.Traces roots d host) {referring : ImportPath}
    {text : String} (asks : Asks roots stack referring text) : scope.Met roots referring text := by
  cases stack with
  | nil =>
      cases asks with
      | root called => exact Or.inl called
  | cons host stack =>
      obtain ⟨d, traces⟩ := traced host List.mem_cons_self
      exact Or.inr ⟨d, traces.reached, traces.makes_of_asks asks⟩

/-- A reference that is met finds copies of what it resolves to, and of nothing else. -/
theorem Traces.resolves (clear : scope.Clear roots) {state : Definer} {referring : ImportPath}
    {text : String} (met : scope.Met roots referring text)
    (named : scope.Names state.store referring text e) (traces : scope.Traces roots d e) :
    scope.resolved? referring text = some d := by
  obtain ⟨path, candidate, known⟩ := named
  refine clear referring text path d met candidate traces.reached ?_
  rw [← traces.canonical_eq]
  exact Store.canonical_of_get? known

/-- A declaration traces back to itself before any of its work is done. -/
theorem traces_self (unchanging : scope.loader.Unchanging) (reached : scope.Reached roots d) :
    scope.Traces roots d d := by
  refine ⟨reached, rfl, ⟨[], ?_, nofun⟩, [], rfl⟩
  rw [List.append_nil]
  exact (offers_of_declared (reached.declared unchanging)).bareMembers_eq

theorem Traces.skip {text : String} {texts : List String} (traces : scope.Traces roots d e)
    (next : e.embedded = text :: texts) : scope.Traces roots d { e with embedded := texts } := by
  obtain ⟨merged, split⟩ := traces.embedded
  refine ⟨traces.reached, traces.core, traces.members, merged ++ [text], ?_⟩
  rw [split, next, List.append_assoc, List.singleton_append]

/-- What a copy finds for the next text that it embeds is what its declaration embeds there. -/
theorem Traces.resolves_embedded (clear : scope.Clear roots) {state : Definer}
    {u source : Definition} {text : String} {texts : List String} (traces : scope.Traces roots d e)
    (tracesSource : scope.Traces roots u source) (next : e.embedded = text :: texts)
    (mergeable : isMergeable text = true)
    (named : scope.Names state.store e.importPath text source) :
    text ∈ d.embedded ∧ scope.resolved? d.importPath text = some u := by
  obtain ⟨merged, split⟩ := traces.embedded
  have among : text ∈ d.embedded := by
    rw [split, next]
    exact List.mem_append_right _ List.mem_cons_self
  rw [traces.importPath_eq] at named
  have met : scope.Met roots d.importPath text :=
    Or.inr ⟨d, traces.reached, .embedded among mergeable⟩
  exact ⟨among, tracesSource.resolves clear met named⟩

/-- Merging a traced definition into its host keeps the host traced. -/
theorem Traces.merge {u source : Definition} {text : String} {texts : List String}
    (traces : scope.Traces roots d e) (tracesSource : scope.Traces roots u source)
    (embeds : scope.Embeds d u) (next : e.embedded = text :: texts) :
    scope.Traces roots d { e with
      members := mergeMembers e.members source.members
      embedded := texts } := by
  obtain ⟨drawn, whole, inside⟩ := traces.members
  obtain ⟨merged, split⟩ := traces.embedded
  refine ⟨traces.reached, traces.core, exists_drawn_mergeMembers whole inside ?_,
    merged ++ [text], ?_⟩
  · intro entry among
    obtain ⟨v, contains, member⟩ := tracesSource.exists_member among
    exact ⟨v, .head embeds contains, member⟩
  · rw [split, next, List.append_assoc, List.singleton_append]

theorem Traces.close {state : Definer} {members : Table Member} (traces : scope.Traces roots d e)
    (targeted : scope.TargetsAll state e.importPath e.members members) :
    scope.Traces roots d { e with members } := by
  obtain ⟨drawn, whole, inside⟩ := traces.members
  exact ⟨traces.reached, traces.core, ⟨drawn, targeted.bareMembers_eq.trans whole, inside⟩,
    traces.embedded⟩

/-- What resolution gives for a reference that is asked for traces back to itself. -/
theorem traces_of_resolve (unchanging : scope.loader.Unchanging) {stack : List Definition}
    (traced : ∀ host ∈ stack, ∃ d, scope.Traces roots d host) {referring : ImportPath}
    {text : String} (asks : Asks roots stack referring text) {journal left : Journal}
    (resolves : scope.resolve referring text journal = (.ok (some d), left)) :
    scope.resolved? referring text = some d ∧ scope.Traces roots d d := by
  have resolved := resolved?_of_resolve unchanging resolves
  exact ⟨resolved, traces_self unchanging ((met_of_asks traced asks).reached resolved)⟩

/-- It lasts that each definition traces back to a declaration that can be reached. -/
theorem lasting_traces (unchanging : scope.loader.Unchanging) (clear : scope.Clear roots)
    (supply : List String) :
    Lasting scope roots supply fun _ e => ∃ d, scope.Traces roots d e where
  grow _ traced := traced
  resolve {conf referring text d journal} _ all asks resolves :=
    ⟨d, (traces_of_resolve unchanging all.opened asks resolves).2⟩
  skip {state host text texts} next _ traced := by
    obtain ⟨d, traces⟩ := traced
    exact ⟨d, traces.skip next⟩
  merge {conf host source stack text texts} _ all top next mergeable named := by
    obtain ⟨d, traces⟩ := all.opened host (top ▸ List.mem_cons_self)
    obtain ⟨path, candidate, known⟩ := named
    obtain ⟨u, tracesSource⟩ := all.stored _ source known
    obtain ⟨among, resolves⟩ := traces.resolves_embedded clear tracesSource next mergeable
      ⟨path, candidate, known⟩
    exact ⟨d, traces.merge tracesSource (embeds_iff.mpr ⟨text, among, mergeable, resolves⟩) next⟩
  close {conf host stack members} _ all top _ targeted := by
    obtain ⟨d, traces⟩ := all.opened host (top ▸ List.mem_cons_self)
    exact ⟨d, traces.close targeted⟩

end Scope

/-- In every reachable configuration stored and open definitions trace back to declarations. -/
theorem Conf.Reachable.traced {scope : Scope} {roots : ImportPath → String → Prop} {conf : Conf}
    (reachable : conf.Reachable scope roots) (unchanging : scope.loader.Unchanging)
    (clear : scope.Clear roots) : conf.All fun _ e => ∃ d, scope.Traces roots d e :=
  reachable.all (Scope.lasting_traces unchanging clear _)

end ApiDocs
