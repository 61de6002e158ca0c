import ApiDocs.Proofs.References

/-!
# Generated documents

A generation runs one definer over all members of all operations. Under plain names it leaves
contents whose references all have targets that lead to definitions (`Contents.collect_ends`), so
the document refers to nothing but its own definitions.
-/

namespace ApiDocs

/-! ## Operations of a definer -/

namespace Definer

variable {scope : Scope} {roots : ImportPath → String → Prop} {supply : List String}

/-- The member got its targets from one that directives give. -/
def Described (scope : Scope) (state : Definer) (m' : Member) : Prop :=
  ∃ unit m, Directive.PlainMember m ∧ scope.Targets state unit m m'

theorem Described.grow {state state' : Definer} (grows : state.Grows state') {m' : Member}
    (described : Described scope state m') : Described scope state' m' :=
  have ⟨unit, m, plain, targeted⟩ := described
  ⟨unit, m, plain, grows.targets targeted⟩

variable (within : ∀ name ∈ scope.names, name ∈ supply)
  (asked : ∀ referring text, roots referring text)

include within asked

/-- Parts of an operation are described one after the other. -/
theorem defineEach_follows {α : Type} {unit : ImportPath} {member : α → Member}
    {withMember : α → Member → α} (reads : ∀ part m, member (withMember part m) = m)
    (parts : List α) (plain : ∀ part ∈ parts, Directive.PlainMember (member part)) {state : Definer}
    (sound : Conf.Sound supply ⟨[], none, state⟩) :
    Follows scope roots ⟨[], none, state⟩ (defineEach scope unit member withMember parts state)
      (fun _ => []) fun parts' left => ∀ part ∈ parts', Described scope left (member part) := by
  induction parts generalizing state with
  | nil => exact Follows.pure nofun .refl
  | cons part parts ih =>
      refine Follows.bind (defineMember_follows fun text _ => asked unit text)
        fun m' left steps targeted => ?_
      have soundLeft := steps.sound within sound
      refine Follows.bind (ih (fun p later => plain p (List.mem_cons_of_mem _ later)) soundLeft)
        fun parts' later stepsLater described => Follows.pure (fun p among => ?_) .refl
      rcases List.mem_cons.mp among with rfl | among
      · rw [reads]
        exact ⟨unit, member part, plain part List.mem_cons_self,
          (stepsLater.grows within soundLeft).targets targeted⟩
      · exact described p among

theorem defineOperation_follows {o : Directive.Operation}
    (plain : ∀ m ∈ o.members, Directive.PlainMember m) {state : Definer}
    (sound : Conf.Sound supply ⟨[], none, state⟩) :
    Follows scope roots ⟨[], none, state⟩ (defineOperation scope o state) (fun _ => [])
      fun o' left => ∀ m ∈ o'.members, Described scope left m := by
  have plainResponse : ∀ r ∈ o.responses, Directive.PlainMember r.member := fun r among =>
    plain _ (List.mem_append_left _ (List.mem_map_of_mem among))
  have plainParameter : ∀ p ∈ o.parameters, Directive.PlainMember p.member := fun p among =>
    plain _ (List.mem_append_right _ (List.mem_map_of_mem among))
  refine Follows.bind (defineEach_follows within asked (fun _ _ => rfl) o.responses plainResponse
    sound) fun responses left steps described => ?_
  have soundLeft := steps.sound within sound
  refine Follows.bind (defineEach_follows within asked (fun _ _ => rfl) o.parameters plainParameter
    soundLeft) fun parameters later stepsLater describedLater =>
      Follows.pure (fun m among => ?_) .refl
  rcases List.mem_append.mp among with inResponses | inParameters
  · obtain ⟨r, present, rfl⟩ := List.mem_map.mp inResponses
    exact (described r present).grow (stepsLater.grows within soundLeft)
  · obtain ⟨p, present, rfl⟩ := List.mem_map.mp inParameters
    exact describedLater p present

/-- Operations that are read from comments are described by what the definer stores. -/
theorem defineOperations_follows (operations : List Directive.Operation)
    (plain : ∀ o ∈ operations, ∀ m ∈ o.members, Directive.PlainMember m) {state : Definer}
    (sound : Conf.Sound supply ⟨[], none, state⟩) :
    Follows scope roots ⟨[], none, state⟩ (defineOperations scope operations state) (fun _ => [])
      fun operations' left => ∀ o ∈ operations', ∀ m ∈ o.members, Described scope left m := by
  induction operations generalizing state with
  | nil => exact Follows.pure nofun .refl
  | cons o operations ih =>
      refine Follows.bind (defineOperation_follows within asked (plain o List.mem_cons_self) sound)
        fun o' left steps described => ?_
      have soundLeft := steps.sound within sound
      refine Follows.bind (ih (fun q later => plain q (List.mem_cons_of_mem _ later)) soundLeft)
        fun operations' later stepsLater describedLater =>
          Follows.pure (fun q among m present => ?_) .refl
      rcases List.mem_cons.mp among with rfl | among
      · exact (described m present).grow (stepsLater.grows within soundLeft)
      · exact describedLater q among m present

end Definer

/-! ## Collected contents -/

theorem Reading.ends_defining {α : Type} {step : Defining α} {journal : Journal}
    {good : α × Store → Journal → Prop} {bad : Failure → Journal → Prop}
    (ends : Ends (step { journal }) (fun result state => good (result, state.store) state.journal)
      fun failure state => bad failure state.journal) :
    Ends (Reading.defining step journal) good bad := by
  cases ran : step { journal } with
  | mk result state =>
      rw [Reading.defining, ran]
      cases result with
      | error failure => exact ends.error ran
      | ok result => exact ends.ok ran

namespace Contents

/-- What a definer leaves behind after defining plain members is linked. -/
theorem linked_of_reachable {scope : Scope} {roots : ImportPath → String → Prop} {left : Definer}
    (plain : scope.loader.IsPlain) (reachable : Conf.Reachable scope roots ⟨[], none, left⟩)
    (api : Directive.Api) {operations : List Directive.Operation}
    (described : ∀ o ∈ operations, ∀ m ∈ o.members, Definer.Described scope left m) :
    Contents.Linked { api, operations, store := left.store } := by
  have all := reachable.all (lasting_linked plain roots scope.names)
  have stored : ∀ d ∈ left.store.definitions.values,
      ∃ name, left.store.get? name = some d := by
    intro d among
    obtain ⟨entry, present, rfl⟩ := List.mem_map.mp among
    exact ⟨entry.1, Table.get?_of_mem left.store.ascending.nodup present⟩
  refine ⟨fun m among => ?_, fun m among => ?_⟩
  · rcases List.mem_append.mp among with inOperations | inStore
    · obtain ⟨o, declared, present⟩ := List.mem_flatMap.mp inOperations
      obtain ⟨_, _, _, targeted⟩ := described o declared m present
      exact targeted.unresolved_eq_nil
    · obtain ⟨d, known, present⟩ := List.mem_flatMap.mp inStore
      obtain ⟨entry, inMembers, rfl⟩ := List.mem_map.mp present
      obtain ⟨name, found⟩ := stored d known
      exact (reachable.finished found).2.targeted entry inMembers
  · rcases List.mem_append.mp among with inOperations | inStore
    · obtain ⟨o, declared, present⟩ := List.mem_flatMap.mp inOperations
      obtain ⟨unit, before, plainBefore, targeted⟩ := described o declared m present
      refine targeted.leads
        (fun name d known => ⟨Store.canonical_of_get? known, (all.stored name d known).isPlain⟩)
        plainBefore.references ?_
      rw [← plainBefore.bare]
      exact Member.leads_bare _ _
    · obtain ⟨d, known, present⟩ := List.mem_flatMap.mp inStore
      obtain ⟨entry, inMembers, rfl⟩ := List.mem_map.mp present
      obtain ⟨name, found⟩ := stored d known
      exact (all.stored name d found).leads entry inMembers

/-- Whatever is collected from plain declarations is linked. -/
theorem collect_ends (configuration : Configuration) {loader : Loader} (plain : loader.IsPlain)
    (journal : Journal) :
    Ends (collect configuration loader journal) (fun contents _ => contents.Linked)
      fun _ _ => True := by
  refine Ends.bind (Ends.modify (Ends.bind ?_))
  refine Ends.of_cases (fun graph _ _ => ?_) fun _ _ _ => trivial
  refine Ends.bind (Ends.modify (Ends.bind ?_))
  refine Ends.of_cases (fun blocks _ _ => ?_) fun _ _ _ => trivial
  refine Ends.bind (Ends.modify (Ends.bind (Reading.ends_defining ?_)))
  have plainMembers : ∀ o ∈ Directive.operations
      (Directive.Api.ofBlocks (Directive.apiBlocks blocks)) blocks,
      ∀ m ∈ o.members, Directive.PlainMember m := by
    intro o among m present
    obtain ⟨responses, parameters⟩ := Directive.plain_of_mem_operations among
    rcases List.mem_append.mp present with inResponses | inParameters
    · obtain ⟨r, declared, rfl⟩ := List.mem_map.mp inResponses
      exact responses r declared
    · obtain ⟨p, declared, rfl⟩ := List.mem_map.mp inParameters
      exact parameters p declared
  have start : ∀ journal, Conf.Reachable ⟨graph, loader⟩ (fun _ _ => True)
      ⟨[], none, { journal }⟩ := fun journal => ⟨journal, .refl⟩
  refine (Definer.defineOperations_follows (fun _ declared => declared) (fun _ _ => trivial) _
    plainMembers (start _).sound).mono ?_ fun _ _ _ => trivial
  rintro operations left ⟨steps, described⟩
  exact Ends.bind (Ends.modify (Ends.pure (linked_of_reachable plain ⟨_, steps⟩ _ described)))

end Contents

/-! ## Documents -/

/-- No reference of a generated document dangles: each is one to a definition that the document
has, and none of the members that it describes is left without a target. -/
theorem generate_references_defined (configuration : Configuration) (loader : Loader)
    (plain : loader.IsPlain) (journal left : Journal) (document : Document)
    (generated : generate configuration loader journal = (.ok document, left)) :
    (∀ reference ∈ document.references,
      ∃ key ∈ document.definitions.keys, reference = "#/definitions/" ++ key) ∧
    ∃ contents collected,
      Contents.collect configuration loader journal = (.ok contents, collected) ∧
      document = contents.document configuration.naming ∧
      ∀ m ∈ contents.members, m.unresolved = [] := by
  have described : Ends (generate configuration loader journal)
      (fun document _ => ∃ contents collected,
        Contents.collect configuration loader journal = (.ok contents, collected) ∧
        document = contents.document configuration.naming ∧ contents.Linked)
      fun _ _ => True := by
    refine Ends.bind (Ends.of_cases (fun contents collected ran => ?_) fun _ _ _ => trivial)
    have linked := (Contents.collect_ends configuration plain journal).ok ran
    exact Ends.bind (Ends.modify (Ends.pure ⟨contents, collected, ran, rfl, linked⟩))
  obtain ⟨contents, collected, ran, rfl, linked⟩ := described.ok generated
  refine ⟨fun reference among => ?_, contents, collected, ran, rfl, linked.targeted⟩
  obtain ⟨d, known, refers⟩ := linked.refers among
  exact ⟨d.display configuration.naming, contents.mem_keys_definitions known, refers⟩

/-- Users with friends and tags, which belong to users again; what users have in common is
embedded. -/
def userUnits : Table (List DeclGroup) :=
  [("app",
    [{ name := "app"
       imports := [⟨"lib/models", none⟩]
       comments :=
        ["@Router /users [get]\n@Success 200 object Vec<models::User> \"all users\""] }]),
   ("lib/models",
    [{ name := "models"
       types :=
        [{ name := "User"
           fields := [{ typeText := "Base" }, { name := some "friend", typeText := "*User" }] },
         { name := "Base", fields := [{ name := some "tags", typeText := "map[String][]Tag" }] },
         { name := "Tag", fields := [{ name := some "owner", typeText := "User" }] }] }])]

theorem generate_references_defined_users :
    (Loader.fixed userUnits).IsPlain ∧
    ∃ document left, generate { root := "app" } (.fixed userUnits) {} = (.ok document, left) ∧
      document.references.length = 5 ∧
      (∀ reference ∈ document.references,
        ∃ key ∈ document.definitions.keys, reference = "#/definitions/" ++ key) ∧
      ∃ contents collected,
        Contents.collect { root := "app" } (.fixed userUnits) {} = (.ok contents, collected) ∧
        document = contents.document .full ∧ ∀ m ∈ contents.members, m.unresolved = [] := by
  have plain : (Loader.fixed userUnits).IsPlain := Loader.isPlain_fixed (by decide +kernel)
  have counted : (generate { root := "app" } (.fixed userUnits) {}).1.toOption.map
      (·.references.length) = some 5 := by decide +kernel
  obtain ⟨document, left, generated, five⟩ := exists_of_toOption counted
  have defined := generate_references_defined { root := "app" } (.fixed userUnits) plain {}
    left document generated
  exact ⟨plain, document, left, generated, five, defined.1, defined.2⟩

end ApiDocs
