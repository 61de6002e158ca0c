import ApiDocs.Proofs.Regular
import ApiDocs.Proofs.Unfinished

/-!
# Where members come from

A stored definition starts with the members that its type declares. What follows was merged into it
and is declared by a type that it embeds, directly or through others (`Stems`); the embedded types
may be stored incomplete, refer back to it, or be found under a name that two units share. No key
occurs twice, so the members of the host win. This holds after any calls, failed ones included
(`stored_members_stem`).
-/

namespace ApiDocs

/-! ## Keys of declarations -/

theorem Definition.nodup_keys_addField {d : Definition} (once : d.members.keys.Nodup)
    (path : ImportPath) (field : FieldDecl) : (d.addField path field).members.keys.Nodup := by
  rw [addField]
  split
  · exact once
  · split
    · exact once
    · split
      · exact Table.nodup_keys_set once _ _
      · exact once

/-- A declared type has no two members of one name. -/
theorem TypeDecl.nodup_keys_definition (decl : TypeDecl) (unitName : String) (path : ImportPath) :
    (decl.definition unitName path).members.keys.Nodup := by
  have fields : ∀ (fields : List FieldDecl) {d : Definition}, d.members.keys.Nodup →
      (fields.foldl (Definition.addField path) d).members.keys.Nodup := by
    intro fields
    induction fields with
    | nil => exact fun once => once
    | cons field fields ih => exact fun once => ih (Definition.nodup_keys_addField once path field)
  exact fields decl.fields List.nodup_nil

namespace Scope

variable {scope : Scope}

theorem Offers.nodup_keys {path : ImportPath} {name : String} {d : Definition}
    (offers : scope.Offers path name d) : d.members.keys.Nodup := by
  obtain ⟨_, _, _, group, decl, values, _, _, rfl⟩ := offers
  exact decl.nodup_keys_definition group.name path

/-! ## Embedding among what is stored -/

/-- The type `d` embeds the type `u` as far as the store goes: a copy of `u` is stored under the
name that a candidate unit gives to a text that `d` embeds. -/
def EmbedsStored (scope : Scope) (store : Store) (d u : Definition) : Prop :=
  ∃ text ∈ d.embedded, isMergeable text = true ∧
    ∃ e, scope.Names store d.importPath text e ∧ scope.Copies u e

theorem EmbedsStored.grow {state state' : Definer} (grows : state.Grows state') {d u : Definition}
    (embeds : scope.EmbedsStored state.store d u) : scope.EmbedsStored state'.store d u := by
  obtain ⟨text, among, mergeable, e, ⟨path, candidate, known⟩, declared, core⟩ := embeds
  obtain ⟨e', known', same⟩ := grows.stored _ e known
  exact ⟨text, among, mergeable, e', ⟨path, candidate, known'⟩, declared, same.trans core⟩

/-- What is embedded in one or more steps is declared. -/
theorem declared_of_transGen {store : Store} {d v : Definition}
    (embeds : Relation.TransGen (scope.EmbedsStored store) d v) :
    scope.declared v.importPath v.name = .ok (some v) := by
  have last : ∃ u, scope.EmbedsStored store u v := by
    cases embeds with
    | single step => exact ⟨d, step⟩
    | tail _ step => exact ⟨_, step⟩
  obtain ⟨u, text, _, _, e, _, declared, _⟩ := last
  exact declared

/-! ## Stems -/

/-- A copy `e` stems from the declaration `d`: it has the declared members and then, each under a
key of its own, members of types that `d` embeds. What it has yet to merge is a tail of what `d`
embeds. -/
structure Stems (scope : Scope) (state : Definer) (d e : Definition) : Prop where
  copies : scope.Copies d e
  members : ∃ drawn, bareMembers e.members = d.members ++ drawn ∧
    ∀ entry ∈ drawn, ∃ v, Relation.TransGen (scope.EmbedsStored state.store) d v ∧
      entry ∈ v.members
  once : e.members.keys.Nodup
  embedded : ∃ merged, d.embedded = merged ++ e.embedded

namespace Stems

variable {state : Definer} {d e : Definition}

theorem grow {state' : Definer} (grows : state.Grows state') (stems : scope.Stems state d e) :
    scope.Stems state' d e := by
  obtain ⟨drawn, whole, inside⟩ := stems.members
  refine ⟨stems.copies, ⟨drawn, whole, fun entry among => ?_⟩, stems.once, stems.embedded⟩
  obtain ⟨v, embeds, present⟩ := inside entry among
  exact ⟨v, embeds.lift id fun _ _ step => step.grow grows, present⟩

/-- A declaration stems from itself. -/
theorem of_declared (declared : scope.declared d.importPath d.name = .ok (some d)) :
    scope.Stems state d d := by
  have offers := offers_of_declared declared
  refine ⟨⟨declared, rfl⟩, ⟨[], ?_, nofun⟩, offers.nodup_keys, [], rfl⟩
  rw [List.append_nil]
  exact offers.bareMembers_eq

/-- A member of a copy is, targets aside, a member of the declaration or of a type that it
embeds. -/
theorem exists_member (stems : scope.Stems state d e) {entry : String × Member}
    (among : entry ∈ e.members) :
    ∃ v, Relation.ReflTransGen (scope.EmbedsStored state.store) d v ∧
      (entry.1, entry.2.bare) ∈ v.members := by
  obtain ⟨drawn, whole, inside⟩ := stems.members
  have present := mem_bareMembers among
  rw [whole] at present
  rcases List.mem_append.mp present with own | taken
  · exact ⟨d, .refl, own⟩
  · obtain ⟨v, embeds, member⟩ := inside _ taken
    exact ⟨v, embeds.to_reflTransGen, member⟩

theorem skip {text : String} {texts : List String} (stems : scope.Stems state d e)
    (next : e.embedded = text :: texts) : scope.Stems state d { e with embedded := texts } := by
  obtain ⟨merged, split⟩ := stems.embedded
  refine ⟨stems.copies, stems.members, stems.once, merged ++ [text], ?_⟩
  rw [split, next, List.append_assoc, List.singleton_append]

/-- A host that merges what stems from an embedded type still stems from its declaration. -/
theorem merge {u source : Definition} {text : String} {texts : List String}
    (stems : scope.Stems state d e) (stemsSource : scope.Stems state u source)
    (next : e.embedded = text :: texts) (mergeable : isMergeable text = true)
    (named : scope.Names state.store e.importPath text source) :
    scope.Stems state d { e with
      members := mergeMembers e.members source.members
      embedded := texts } := by
  obtain ⟨drawn, whole, inside⟩ := stems.members
  obtain ⟨merged, split⟩ := stems.embedded
  have embeds : scope.EmbedsStored state.store d u := by
    refine ⟨text, ?_, mergeable, source, ?_, stemsSource.copies⟩
    · rw [split, next]
      exact List.mem_append_right _ List.mem_cons_self
    · rw [← Definition.importPath_eq_of_core stems.copies.2]
      exact named
  refine ⟨stems.copies, exists_drawn_mergeMembers whole inside ?_, ?_, merged ++ [text], ?_⟩
  · intro entry among
    obtain ⟨v, further, member⟩ := stemsSource.exists_member among
    exact ⟨v, .head' embeds further, member⟩
  · rw [keys_mergeMembers]
    exact nodup_mergeKeys stems.once _
  · rw [split, next, List.append_assoc, List.singleton_append]

theorem close {members : Table Member} (stems : scope.Stems state d e)
    (targeted : scope.TargetsAll state e.importPath e.members members) :
    scope.Stems state d { e with members } := by
  have same := targeted.bareMembers_eq
  obtain ⟨drawn, whole, inside⟩ := stems.members
  refine ⟨stems.copies, ⟨drawn, same.trans whole, inside⟩, ?_, stems.embedded⟩
  rw [← keys_bareMembers, same, keys_bareMembers]
  exact stems.once

end Stems

/-- It lasts that each definition stems from a declaration of the loader. -/
theorem lasting_stems (unchanging : scope.loader.Unchanging)
    (roots : ImportPath → String → Prop) (supply : List String) :
    Lasting scope roots supply fun state e => ∃ d, scope.Stems state d e where
  grow grows stemmed := by
    obtain ⟨d, stems⟩ := stemmed
    exact ⟨d, stems.grow grows⟩
  resolve {conf referring text d journal} sound all asks resolves := by
    have resolved := resolved?_of_resolve unchanging resolves
    exact ⟨d, .of_declared (declared_of_resolved? unchanging resolved).2.2⟩
  skip next _ stemmed := by
    obtain ⟨d, stems⟩ := stemmed
    exact ⟨d, stems.skip next⟩
  merge {conf host source stack text texts} _ all top next mergeable named := by
    obtain ⟨d, stems⟩ := all.opened host (top ▸ List.mem_cons_self)
    obtain ⟨path, candidate, known⟩ := named
    obtain ⟨u, stemsSource⟩ := all.stored _ source known
    exact ⟨d, stems.merge stemsSource next mergeable ⟨path, candidate, known⟩⟩
  close {conf host stack members} _ all top _ targeted := by
    obtain ⟨d, stems⟩ := all.opened host (top ▸ List.mem_cons_self)
    exact ⟨d, stems.close targeted⟩

end Scope

/-! ## Rows of calls -/

/-- What lasts through the steps of a call lasts through calls in a row. -/
theorem Call.stored_afterAll {scope : Scope} {holds : Definer → Definition → Prop}
    (lasting : ∀ supply, Lasting scope anyReference supply holds) (calls : List Call)
    {state : Definer} (resting : state.Resting)
    (before : ∀ name d, state.store.get? name = some d → holds state d) :
    ∀ name d, (Call.afterAll scope calls state).store.get? name = some d →
      holds (Call.afterAll scope calls state) d := by
  induction calls generalizing state with
  | nil => exact before
  | cons call calls ih =>
      obtain ⟨waiting, stack, steps, _, _⟩ := call.exists_steps scope state
      have sound := Definer.sound_allNames scope state waiting
      have all := steps.all (lasting _) (Definer.mem_allNames scope state) sound ⟨before, nofun⟩
      exact ih (call.rests scope resting).1 all.stored

/-- After any calls, each of which may have failed, a stored definition has the members of its
declaration, in their order and with nothing changed but targets, and then members under other keys:
each is declared by a type that the definition embeds in one or more steps, and keeps the unit of
that type as its origin. No key occurs twice. -/
theorem stored_members_stem (scope : Scope) (unchanging : scope.loader.Unchanging)
    (calls : List Call) (journal : Journal) (name : String) (e : Definition)
    (known : (Call.afterAll scope calls { journal }).store.get? name = some e) :
    ∃ d drawn, scope.declared e.importPath e.name = .ok (some d) ∧
      bareMembers e.members = d.members ++ drawn ∧
      (∀ entry ∈ drawn, entry.1 ∉ d.members.keys ∧
        ∃ v, Relation.TransGen
            (scope.EmbedsStored (Call.afterAll scope calls { journal }).store) d v ∧
          entry ∈ v.members ∧ entry.2.info.origin = v.importPath) ∧
      e.members.keys.Nodup := by
  have stemmed := Call.stored_afterAll (fun supply => Scope.lasting_stems unchanging _ supply) calls
    (Definer.resting_empty journal) nofun
  obtain ⟨d, ⟨declared, core⟩, ⟨drawn, whole, inside⟩, once, _⟩ := stemmed name e known
  rw [← Definition.importPath_eq_of_core core, ← Definition.name_eq_of_core core] at declared
  refine ⟨d, drawn, declared, whole, fun entry among => ⟨?_, ?_⟩, once⟩
  · have apart : (d.members ++ drawn).keys.Nodup := by
      rw [← whole, keys_bareMembers]
      exact once
    rw [Table.keys, List.map_append] at apart
    intro own
    exact (List.nodup_append.mp apart).2.2 _ own _ (List.mem_map_of_mem among) rfl
  · obtain ⟨v, embeds, member⟩ := inside entry among
    have offers := Scope.offers_of_declared (Scope.declared_of_transGen embeds)
    exact ⟨v, embeds, member, offers.origin_eq member⟩

/-- Two types that embed each other and share a key, and one with a dangling reference. -/
def tangledScope : Scope :=
  .single [
    { name := "Host", fields := [{ name := "own", typeText := "i64" }, { typeText := "Part" }] },
    { name := "Part", fields := [{ name := "id", typeText := "i64" },
      { name := "own", typeText := "String" }, { typeText := "*Host" }] },
    { name := "Torn", fields := [{ name := "x", typeText := "Missing" }] }]

/-- The first call fails. -/
def tangledCalls : List Call :=
  [.member "app" (.scalar {} "Torn" none), .member "app" (.scalar {} "Host" none)]

theorem stored_members_stem_tangled :
    tangledScope.loader.Unchanging ∧
      ∃ e, (Call.afterAll tangledScope tangledCalls {}).store.get? "app.Host" = some e ∧
        e.members.keys = ["own", "id"] ∧
        ∃ d drawn, tangledScope.declared e.importPath e.name = .ok (some d) ∧
          bareMembers e.members = d.members ++ drawn ∧
          (∀ entry ∈ drawn, entry.1 ∉ d.members.keys ∧
            ∃ v, Relation.TransGen (tangledScope.EmbedsStored
                (Call.afterAll tangledScope tangledCalls {}).store) d v ∧
              entry ∈ v.members ∧ entry.2.info.origin = v.importPath) ∧
          e.members.keys.Nodup := by
  have unchanging : tangledScope.loader.Unchanging := Loader.unchanging_fixed _
  have keys : ((Call.afterAll tangledScope tangledCalls {}).store.get? "app.Host").map
      (·.members.keys) = some ["own", "id"] := by decide +kernel
  obtain ⟨e, known, same⟩ := Option.map_eq_some_iff.mp keys
  exact ⟨unchanging, e, known, same,
    stored_members_stem tangledScope unchanging tangledCalls {} "app.Host" e known⟩

end ApiDocs
