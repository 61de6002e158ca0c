import ApiDocs.Proofs.Run
import ApiDocs.Proofs.Table

/-!
# What references resolve to

Whatever a loader answers, a definition that resolution gives is built from a declaration of one of
the candidate units (`Scope.Offers`, `resolve_offers`), so it is stored under the name by which the
reference asks for it.

If the answers never change, resolution no longer depends on the journal. It is then the walk
`Scope.found` over what each candidate declares (`resolve_eq_found`), and the first candidate that
declares the name decides (`found_eq_some_iff`).
-/

namespace ApiDocs

/-! ## Loads -/

/-- Whatever was loaded before, the answer for a path is one of those listed for it. -/
theorem Loader.answer_mem_answers (loader : Loader) (path : ImportPath) (past : Nat) :
    loader.answer path past ∈ loader.answers path := by
  rw [answer, answers]
  split
  · rw [History.answer, History.answers, List.getD_eq_getElem?_getD]
    cases early : (loader.history path).early[past]? with
    | none => simp
    | some answer => exact List.mem_append_left _ (List.mem_of_getElem? early)
  · exact List.mem_singleton_self _

/-- A loader that locates the units of a table and always gives the same answer. -/
def Loader.fixed (units : Table (List DeclGroup)) : Loader where
  paths := units.keys
  history path := { settled := { groups := .ok (units.get? path) } }

/-- A fixed table of units gives the same answer each time. -/
theorem Loader.unchanging_fixed (units : Table (List DeclGroup)) :
    (Loader.fixed units).Unchanging := by
  intro path past
  rw [answer, answer]
  split
  · exact List.getD_nil
  · rfl

theorem Loader.exists_mem_of_mem_answers_fixed {units : Table (List DeclGroup)} {path : ImportPath}
    {answer : Answer} (answered : answer ∈ (Loader.fixed units).answers path) {group : DeclGroup}
    (among : group ∈ answer.groupList) : ∃ groups, (path, groups) ∈ units ∧ group ∈ groups := by
  rw [answers] at answered
  split at answered
  · rw [List.mem_singleton.mp answered] at among
    cases found : units.get? path with
    | none =>
        simp only [fixed, Answer.groupList, found] at among
        cases among
    | some groups =>
        simp only [fixed, Answer.groupList, found] at among
        exact ⟨groups, Table.mem_of_get? found, among⟩
  · rw [List.mem_singleton.mp answered] at among
    cases among

/-- The group that stands for a unit with this answer. -/
def Answer.selection (answer : Answer) (path : ImportPath) : Except Failure (Option DeclGroup) :=
  match answer.groups with
  | .error failure => .error failure
  | .ok none => .ok none
  | .ok (some groups) =>
    match selectGroup groups with
    | some group => .ok (some group)
    | none => .error (.noUsableGroup path)

/-- What stands for a unit is selected among the groups of the answer alone. -/
theorem Answer.selectGroup_groupList {answer : Answer} {path : ImportPath} {group : DeclGroup}
    (selected : answer.selection path = .ok (some group)) :
    selectGroup answer.groupList = some group := by
  rw [selection] at selected
  rw [groupList]
  split at selected
  · cases selected
  · cases selected
  · rename_i groups answered
    rw [answered]
    split at selected
    · rename_i chosen
      cases selected
      exact chosen
    · cases selected

/-- What a load gives depends on the journal only through the number of earlier loads of the
path. -/
theorem Loader.load_fst (loader : Loader) (path : ImportPath) (journal : Journal) :
    (loader.load path journal).1 = (loader.answer path (journal.loads.count path)).groups := by
  refine Ends.fst_eq (Ends.bind (Ends.get (Ends.bind (Ends.set ?_))))
  cases answered : (loader.answer path (journal.loads.count path)).groups with
  | error failure => exact Ends.throw rfl
  | ok groups => exact Ends.pure rfl

theorem Loader.loadSelected_fst (loader : Loader) (path : ImportPath) (journal : Journal) :
    (loader.loadSelected path journal).1 =
      (loader.answer path (journal.loads.count path)).selection path := by
  refine Ends.fst_eq (Ends.bind
    ((Ends.of_fst_eq (loader.load_fst path journal)).mono (fun groups left answered => ?_)
      fun failure left answered => ?_))
  · rw [Answer.selection, answered]
    cases groups with
    | none => exact Ends.pure rfl
    | some groups =>
        dsimp only
        cases selectGroup groups with
        | none => exact Ends.throw rfl
        | some group => exact Ends.pure rfl
  · rw [Answer.selection, answered]

/-! ## Definitions of declarations -/

/-- The definition without its members and without what it embeds. -/
def Definition.core (d : Definition) : Definition := { d with members := [], embedded := [] }

namespace Definition

variable {d e : Definition}

theorem name_eq_of_core (same : d.core = e.core) : d.name = e.name := by
  change d.core.name = e.core.name
  rw [same]

theorem importPath_eq_of_core (same : d.core = e.core) : d.importPath = e.importPath := by
  change d.core.importPath = e.core.importPath
  rw [same]

/-- Definitions with the same core are the same target for references. -/
theorem target_eq_of_core (same : d.core = e.core) : d.target = e.target := by
  change d.core.target = e.core.target
  rw [same]

theorem canonical_eq_of_core (same : d.core = e.core) : d.canonical = e.canonical := by
  change d.core.canonical = e.core.canonical
  rw [same]

theorem underlying_eq_of_core (same : d.core = e.core) : d.underlying = e.underlying := by
  change d.core.underlying = e.core.underlying
  rw [same]

theorem enumerations_eq_of_core (same : d.core = e.core) : d.enumerations = e.enumerations := by
  change d.core.enumerations = e.core.enumerations
  rw [same]

end Definition

/-- A field adds a member or an embedded text, and nothing else of the definition changes. -/
theorem Definition.core_addField (path : ImportPath) (d : Definition) (field : FieldDecl) :
    (d.addField path field).core = d.core := by
  rw [addField]
  split
  · rfl
  · split
    · rfl
    · split <;> rfl

/-- The core of a definition is what its declaration says apart from the fields. -/
theorem TypeDecl.core_definition (decl : TypeDecl) (unitName : String) (path : ImportPath) :
    (decl.definition unitName path).core =
      ({ name := decl.name, unitName, importPath := path, doc := decl.doc,
         underlying := decl.underlying } : Definition).core := by
  have kept : ∀ (fields : List FieldDecl) (d : Definition),
      (fields.foldl (Definition.addField path) d).core = d.core := by
    intro fields
    induction fields with
    | nil => exact fun d => rfl
    | cons field fields ih => exact fun d => (ih _).trans (d.core_addField path field)
  exact kept decl.fields _

theorem Table.mem_set {α : Type} {table : Table α} {key : String} {value : α}
    {entry : String × α} (present : entry ∈ table.set key value) :
    entry = (key, value) ∨ entry ∈ table := by
  induction table with
  | nil => exact Or.inl (List.mem_singleton.mp present)
  | cons first rest ih =>
      rw [set] at present
      split at present
      · rename_i same
        rcases List.mem_cons.mp present with rfl | later
        · exact Or.inl (congrArg (·, value) same)
        · exact Or.inr (List.mem_cons_of_mem _ later)
      · rcases List.mem_cons.mp present with rfl | later
        · exact Or.inr List.mem_cons_self
        · exact (ih later).imp_right (List.mem_cons_of_mem _)

/-- Members come from named fields and embedded texts from fields. -/
theorem TypeDecl.fields_of_definition (decl : TypeDecl) (unitName : String) (path : ImportPath) :
    (∀ entry ∈ (decl.definition unitName path).members,
      ∃ field ∈ decl.fields, field.member? path = some entry.2) ∧
    ∀ text ∈ (decl.definition unitName path).embedded,
      ∃ field ∈ decl.fields, field.typeText = text := by
  have drawn : ∀ (fields : List FieldDecl) (d : Definition), (∀ field ∈ fields,
      field ∈ decl.fields) →
      (∀ entry ∈ d.members, ∃ field ∈ decl.fields, field.member? path = some entry.2) →
      (∀ text ∈ d.embedded, ∃ field ∈ decl.fields, field.typeText = text) →
      (∀ entry ∈ (fields.foldl (Definition.addField path) d).members,
        ∃ field ∈ decl.fields, field.member? path = some entry.2) ∧
      ∀ text ∈ (fields.foldl (Definition.addField path) d).embedded,
        ∃ field ∈ decl.fields, field.typeText = text := by
    intro fields
    induction fields with
    | nil => exact fun d _ members embedded => ⟨members, embedded⟩
    | cons field fields ih =>
        intro d ours members embedded
        have here := ours field List.mem_cons_self
        refine ih _ (fun f later => ours f (List.mem_cons_of_mem _ later)) ?_ ?_
        · intro entry present
          rw [Definition.addField] at present
          split at present
          · exact members entry present
          · split at present
            · exact members entry present
            · split at present
              · rename_i member given
                rcases Table.mem_set present with rfl | old
                · exact ⟨field, here, given⟩
                · exact members entry old
              · exact members entry present
        · intro text present
          rw [Definition.addField] at present
          split at present
          · exact embedded text present
          · split at present
            · rcases List.mem_append.mp present with old | new
              · exact embedded text old
              · exact ⟨field, here, (List.mem_singleton.mp new).symm⟩
            · split at present <;> exact embedded text present
  exact drawn decl.fields _ (fun _ member => member) (by simp) (by simp)

/-! ## Resolution with any answers -/

namespace Scope

/-- The definition is built from a declaration of the name in an answer of the unit, which belongs
to the graph. -/
def Offers (scope : Scope) (path : ImportPath) (name : String) (d : Definition) : Prop :=
  (scope.graph.get? path).isSome ∧
    ∃ answer ∈ scope.loader.answers path, ∃ group decl values,
      selectGroup answer.groupList = some group ∧ group.findType? name = some decl ∧
      d = { decl.definition group.name path with enumerations := values }

/-- What a unit offers under a name comes from that unit and has that name. -/
theorem Offers.core_eq {scope : Scope} {path : ImportPath} {name : String} {d : Definition}
    (offers : scope.Offers path name d) : d.importPath = path ∧ d.name = name := by
  obtain ⟨_, _, _, group, decl, values, _, declares, rfl⟩ := offers
  have core := decl.core_definition group.name path
  have named : decl.name = name := by
    have matched := List.find?_some declares
    simpa using matched
  exact ⟨Definition.importPath_eq_of_core core, (Definition.name_eq_of_core core).trans named⟩

theorem Offers.canonical_eq {scope : Scope} {path : ImportPath} {name : String} {d : Definition}
    (offers : scope.Offers path name d) : d.canonical = canonicalName path name := by
  rw [Definition.canonical, offers.core_eq.1, offers.core_eq.2]

/-- A group that stands for a unit is one of the groups that were read. -/
theorem mem_of_selectGroup {groups : List DeclGroup} {group : DeclGroup}
    (selected : selectGroup groups = some group) : group ∈ groups := by
  have chosen : ∀ (rest : List DeclGroup) (start : Option DeclGroup),
      rest.foldl preferGroup start = some group → start = some group ∨ group ∈ rest := by
    intro rest
    induction rest with
    | nil => exact fun start ends => Or.inl ends
    | cons first rest ih =>
        intro start ends
        rcases ih _ ends with early | late
        · unfold preferGroup at early
          split at early
          · exact Or.inl early
          · split at early
            · cases early
              exact Or.inr List.mem_cons_self
            · split at early
              · cases early
                exact Or.inr List.mem_cons_self
              · exact Or.inl early
        · exact Or.inr (List.mem_cons_of_mem _ late)
  exact (chosen groups none selected).resolve_left nofun

/-- What is offered has one of the names that the units of the graph can declare. -/
theorem Offers.canonical_mem_names {scope : Scope} {path : ImportPath} {name : String}
    {d : Definition} (offers : scope.Offers path name d) : d.canonical ∈ scope.names := by
  rw [offers.canonical_eq]
  obtain ⟨present, answer, answered, group, decl, values, selected, declares, _⟩ := offers
  obtain ⟨unit, known⟩ := Option.isSome_iff_exists.mp present
  have named : decl.name = name := by
    have matched := List.find?_some declares
    simpa using matched
  refine List.mem_flatMap.mpr ⟨path, Table.mem_keys_of_get? known, ?_⟩
  refine List.mem_flatMap.mpr ⟨answer, answered, List.mem_map.mpr ⟨name, ?_, rfl⟩⟩
  refine List.mem_flatMap.mpr ⟨group, mem_of_selectGroup selected, ?_⟩
  exact List.mem_map.mpr ⟨decl, List.mem_of_find?_eq_some declares, named⟩

/-- However it ends, a definition that is made has the members of its declaration, and values. -/
theorem define_ends (scope : Scope) (path : ImportPath) (group : DeclGroup) (decl : TypeDecl)
    (journal : Journal) :
    Ends (scope.define path group decl journal)
      (fun d _ => ∃ values, d = { decl.definition group.name path with enumerations := values })
      fun _ _ => True := by
  rw [define]
  split
  · refine Ends.bind (Ends.of_cases (fun values left _ => ?_) fun _ _ _ => trivial)
    exact Ends.pure ⟨_, rfl⟩
  · exact Ends.pure ⟨_, rfl⟩

/-- Whatever is found in some units is offered by one of them. -/
theorem firstDeclared_ends (scope : Scope) (text name : String) (paths : List ImportPath)
    (journal : Journal) :
    Ends (scope.firstDeclared text name paths journal)
      (fun found _ => ∀ d, found = some d → ∃ path ∈ paths, scope.Offers path name d)
      fun _ _ => True := by
  induction paths generalizing journal with
  | nil => exact Ends.pure nofun
  | cons path paths ih =>
      have later : ∀ left, Ends (scope.firstDeclared text name paths left)
          (fun found _ => ∀ d, found = some d → ∃ p ∈ path :: paths, scope.Offers p name d)
          fun _ _ => True := fun left =>
        (ih left).mono (fun found _ offered d same =>
          let ⟨p, among, offers⟩ := offered d same
          ⟨p, List.mem_cons_of_mem _ among, offers⟩) fun _ _ done => done
      rw [firstDeclared]
      split
      · exact Ends.bind (Ends.modify (later _))
      · rename_i present
        refine Ends.bind ((Ends.of_fst_eq (scope.loader.loadSelected_fst path journal)).mono
          (fun selected left answered => ?_) fun _ _ _ => trivial)
        cases selected with
        | none => exact Ends.bind (Ends.modify (later _))
        | some group =>
            dsimp only
            cases declares : group.findType? name with
            | none => exact later left
            | some decl =>
                refine Ends.bind
                  ((scope.define_ends path group decl left).mono ?_ fun _ _ done => done)
                rintro d _ ⟨values, rfl⟩
                refine Ends.pure fun e same => ⟨path, List.mem_cons_self, ?_⟩
                cases same
                exact ⟨Option.isSome_iff_ne_none.mpr (by simpa using present), _,
                  scope.loader.answer_mem_answers path _, group, decl, values,
                  Answer.selectGroup_groupList answered, declares, rfl⟩

/-- What resolution gives is offered by a candidate under the name of the reference. -/
theorem resolve_offers (scope : Scope) (referring : ImportPath) (text : String)
    (journal : Journal) :
    Ends (scope.resolve referring text journal)
      (fun found _ => ∀ d, found = some d →
        ∃ path ∈ scope.graph.candidates referring (TypeText.reference text),
          scope.Offers path (TypeText.reference text).name d)
      fun _ _ => True :=
  Ends.bind (Ends.modify (scope.firstDeclared_ends text _ _ _))

end Scope

/-! ## Laws of resolution -/

/-- A property of reading steps that carries over to steps put together of others. -/
structure Reading.Law (holds : (α : Type) → Reading α → Prop) : Prop where
  pure {α : Type} (result : α) : holds α (Pure.pure result)
  report (notices : List Notice) : holds Unit (Reading.report notices)
  bind {α β : Type} {first : Reading α} {next : α → Reading β} :
    holds α first → (∀ result, holds β (next result)) → holds β (first >>= next)

namespace Reading.Law

variable {holds : (α : Type) → Reading α → Prop} (law : Law holds) {scope : Scope}
  (loads : ∀ path ∈ scope.graph.paths, holds _ (scope.loader.loadSelected path))

include law loads

/-- A property of readers that is kept by what they are composed of holds for making a
definition. -/
theorem define {path : ImportPath} (known : path ∈ scope.graph.paths) (group : DeclGroup)
    (decl : TypeDecl) : holds _ (scope.define path group decl) := by
  rw [Scope.define]
  split
  · refine law.bind (law.bind (loads path known) fun found => ?_) fun _ => law.pure _
    cases found with
    | none => exact law.bind (law.report _) fun _ => law.pure _
    | some group => exact law.bind (law.report _) fun _ => law.pure _
  · exact law.pure _

/-- It holds for the search through units, as these are loaded one by one. -/
theorem firstDeclared (text name : String) (paths : List ImportPath) :
    holds _ (scope.firstDeclared text name paths) := by
  induction paths with
  | nil => exact law.pure _
  | cons path paths ih =>
      rw [Scope.firstDeclared]
      cases present : scope.graph.get? path with
      | none => exact law.bind (law.report _) fun _ => ih
      | some unit =>
          have known : path ∈ scope.graph.paths := Table.mem_keys_of_get? present
          refine law.bind (loads path known) fun found => ?_
          cases found with
          | none => exact law.bind (law.report _) fun _ => ih
          | some group =>
              dsimp only
              cases group.findType? name with
              | none => exact ih
              | some decl => exact law.bind (law.define loads known group decl) fun _ => law.pure _

/-- Resolution keeps a law that loading the units of the graph keeps: it loads no others. -/
theorem resolve (referring : ImportPath) (text : String) :
    holds _ (scope.resolve referring text) :=
  law.bind (law.report _) fun _ => law.firstDeclared loads text _ _

end Reading.Law

/-! ## Resolution with unchanging answers -/

/-- The definition of a declared type, with the values of its constants if it stands for a
primitive. -/
def DeclGroup.definition (group : DeclGroup) (path : ImportPath) (decl : TypeDecl) : Definition :=
  let d := decl.definition group.name path
  if d.isPrimitive then { d with enumerations := some (group.enumeration d.name) } else d

/-- The values of an enumeration are all that a group adds to the definition of a declaration. -/
theorem DeclGroup.exists_definition_eq (group : DeclGroup) (path : ImportPath) (decl : TypeDecl) :
    ∃ values, group.definition path decl =
      { decl.definition group.name path with enumerations := values } := by
  rw [definition]
  split
  · exact ⟨_, rfl⟩
  · exact ⟨_, rfl⟩

namespace Scope

/-- What the unit at a path declares under a name, if it belongs to the graph. -/
def declared (scope : Scope) (path : ImportPath) (name : String) :
    Except Failure (Option Definition) :=
  if (scope.graph.get? path).isNone then .ok none
  else
    match (scope.loader.answer path 0).selection path with
    | .error failure => .error failure
    | .ok none => .ok none
    | .ok (some group) => .ok ((group.findType? name).map (group.definition path))

/-- What the first of the paths declares that declares the name. -/
def found (scope : Scope) (name : String) : List ImportPath → Except Failure (Option Definition)
  | [] => .ok none
  | path :: paths =>
    match scope.declared path name with
    | .ok none => scope.found name paths
    | decided => decided

/-- What a reference resolves to at the beginning of a run. -/
def resolved? (scope : Scope) (referring : ImportPath) (text : String) : Option Definition :=
  match (scope.resolve referring text {}).1 with
  | .ok found => found
  | .error _ => none

variable {scope : Scope}

/-- What is declared is offered, so that facts about offers hold for declarations. -/
theorem offers_of_declared {path : ImportPath} {name : String} {d : Definition}
    (declares : scope.declared path name = .ok (some d)) : scope.Offers path name d := by
  rw [declared] at declares
  split at declares
  · cases declares
  · rename_i present
    split at declares
    · cases declares
    · cases declares
    · rename_i group selected
      obtain ⟨decl, named, rfl⟩ := Option.map_eq_some_iff.mp (Except.ok.inj declares)
      obtain ⟨values, built⟩ := group.exists_definition_eq path decl
      exact ⟨Option.isSome_iff_ne_none.mpr (by simpa using present), _,
        scope.loader.answer_mem_answers path 0, group, decl, values,
        Answer.selectGroup_groupList selected, named, built⟩

/-- What is found is declared by the first of the units that does not answer with nothing. -/
theorem found_eq_some_iff {name : String} {paths : List ImportPath} {d : Definition} :
    scope.found name paths = .ok (some d) ↔
      ∃ before path after, paths = before ++ path :: after ∧
        (∀ p ∈ before, scope.declared p name = .ok none) ∧
        scope.declared path name = .ok (some d) := by
  induction paths with
  | nil =>
      refine ⟨nofun, ?_⟩
      rintro ⟨before, path, after, split, _⟩
      exact absurd split.symm (by simp)
  | cons first paths ih =>
      rw [found]
      constructor
      · intro finds
        split at finds
        · rename_i none
          obtain ⟨before, path, after, rfl, earlier, here⟩ := ih.mp finds
          refine ⟨first :: before, path, after, rfl, fun p among => ?_, here⟩
          rcases List.mem_cons.mp among with rfl | among
          · exact none
          · exact earlier p among
        · exact ⟨[], first, paths, rfl, nofun, finds⟩
      · rintro ⟨before, path, after, split, earlier, here⟩
        cases before with
        | nil =>
            cases split
            rw [here]
        | cons p before =>
            cases split
            rw [earlier first List.mem_cons_self]
            exact ih.mpr ⟨before, path, after, rfl,
              fun p among => earlier p (List.mem_cons_of_mem _ among), here⟩

section Unchanging

variable (unchanging : scope.loader.Unchanging)

include unchanging

/-- With unchanging answers the values are read from the group that stands for the unit. -/
theorem enumeration_fst {path : ImportPath} {group : DeclGroup}
    (selected : (scope.loader.answer path 0).selection path = .ok (some group)) (typeName : String)
    (journal : Journal) :
    (scope.loader.enumeration path typeName journal).1 = .ok (group.enumeration typeName) := by
  have loads := scope.loader.loadSelected_fst path journal
  rw [unchanging, selected] at loads
  refine Ends.fst_eq (Ends.bind ((Ends.of_fst_eq loads).mono ?_ nofun))
  intro answered left same
  cases same
  exact Ends.bind (Ends.modify (Ends.pure rfl))

/-- With unchanging answers a definition does not depend on what was loaded before. -/
theorem define_fst {path : ImportPath} {group : DeclGroup}
    (selected : (scope.loader.answer path 0).selection path = .ok (some group)) (decl : TypeDecl)
    (journal : Journal) :
    (scope.define path group decl journal).1 = .ok (group.definition path decl) := by
  refine Ends.fst_eq ?_
  rw [define, DeclGroup.definition]
  split
  · refine Ends.bind
      ((Ends.of_fst_eq (enumeration_fst unchanging selected _ journal)).mono ?_ nofun)
    intro values left same
    cases same
    exact Ends.pure rfl
  · exact Ends.pure rfl

/-- With unchanging answers the search through units has the outcome that their declarations
give. -/
theorem firstDeclared_fst (text name : String) (paths : List ImportPath) (journal : Journal) :
    (scope.firstDeclared text name paths journal).1 = scope.found name paths := by
  induction paths generalizing journal with
  | nil => rfl
  | cons path paths ih =>
      refine Ends.fst_eq ?_
      rw [firstDeclared, found, declared]
      split
      · exact Ends.bind (Ends.modify (Ends.of_fst_eq (ih _)))
      · have loads := scope.loader.loadSelected_fst path journal
        rw [unchanging] at loads
        refine Ends.bind ((Ends.of_fst_eq loads).mono (fun selected left answered => ?_)
          fun failure left answered => ?_)
        · rw [answered]
          cases selected with
          | none => exact Ends.bind (Ends.modify (Ends.of_fst_eq (ih _)))
          | some group =>
              dsimp only
              cases group.findType? name with
              | none => exact Ends.of_fst_eq (ih left)
              | some decl =>
                  refine Ends.bind
                    ((Ends.of_fst_eq (define_fst unchanging answered decl left)).mono ?_ nofun)
                  intro d _ same
                  cases same
                  exact Ends.pure rfl
        · rw [answered]

/-- Resolution is the walk over what the candidates declare, whatever happened before. -/
theorem resolve_fst (referring : ImportPath) (text : String) (journal : Journal) :
    (scope.resolve referring text journal).1 =
      scope.found (TypeText.reference text).name
        (scope.graph.candidates referring (TypeText.reference text)) :=
  Ends.fst_eq (Ends.bind (Ends.modify
    (Ends.of_fst_eq (firstDeclared_fst unchanging text _ _ _))))

/-- A reference resolves to what the first of its candidates declares. -/
theorem resolved?_eq_some_iff {referring : ImportPath} {text : String} {d : Definition} :
    scope.resolved? referring text = some d ↔
      scope.found (TypeText.reference text).name
        (scope.graph.candidates referring (TypeText.reference text)) = .ok (some d) := by
  rw [resolved?, resolve_fst unchanging]
  split
  · rename_i answer finds
    rw [finds, Except.ok.injEq]
  · rename_i failure finds
    rw [finds]
    exact ⟨nofun, nofun⟩

/-- What a reference resolves to is declared by a candidate. -/
theorem declared_of_resolved? {referring : ImportPath} {text : String} {d : Definition}
    (resolves : scope.resolved? referring text = some d) :
    d.importPath ∈ scope.graph.candidates referring (TypeText.reference text) ∧
      d.name = (TypeText.reference text).name ∧
      scope.declared d.importPath d.name = .ok (some d) := by
  obtain ⟨before, path, after, split, _, declares⟩ :=
    found_eq_some_iff.mp ((resolved?_eq_some_iff unchanging).mp resolves)
  obtain ⟨samePath, sameName⟩ := (offers_of_declared declares).core_eq
  rw [samePath, sameName, split]
  exact ⟨List.mem_append_right _ List.mem_cons_self, rfl, declares⟩

/-- A run of a resolution that finds something finds what the reference resolves to. -/
theorem resolved?_of_resolve {referring : ImportPath} {text : String} {d : Definition}
    {journal left : Journal}
    (resolves : scope.resolve referring text journal = (.ok (some d), left)) :
    scope.resolved? referring text = some d := by
  have found := resolve_fst unchanging referring text journal
  rw [resolves] at found
  exact (resolved?_eq_some_iff unchanging).mpr found.symm

/-- What a reference resolves to is what resolution returns, whatever was loaded before. -/
theorem resolve_of_resolved? {referring : ImportPath} {text : String} {d : Definition}
    (resolves : scope.resolved? referring text = some d) (journal : Journal) :
    (scope.resolve referring text journal).1 = .ok (some d) :=
  (resolve_fst unchanging referring text journal).trans
    ((resolved?_eq_some_iff unchanging).mp resolves)

end Unchanging

/-! ## Copies of declarations -/

/-- `e` is a copy of the declaration `d`. -/
def Copies (scope : Scope) (d e : Definition) : Prop :=
  scope.declared d.importPath d.name = .ok (some d) ∧ e.core = d.core

/-- The unit is a candidate for the reference, and those before it do not declare the name. -/
def First (scope : Scope) (referring : ImportPath) (text : String) (path : ImportPath) : Prop :=
  ∃ before after,
    scope.graph.candidates referring (TypeText.reference text) = before ++ path :: after ∧
    ∀ earlier ∈ before, scope.declared earlier (TypeText.reference text).name = .ok none

namespace Copies

variable {d d' e : Definition}

/-- A declaration is determined by the unit and the name that its copies have. -/
theorem eq_of_declared (copies : scope.Copies d e)
    (declared : scope.declared d'.importPath d'.name = .ok (some d'))
    (path : d'.importPath = e.importPath) (name : d'.name = e.name) : d = d' := by
  obtain ⟨declares, core⟩ := copies
  rw [← Definition.importPath_eq_of_core core, ← Definition.name_eq_of_core core, ← path, ← name,
    declared] at declares
  exact (Option.some.inj (Except.ok.inj declares)).symm

/-- A definition is a copy of one declaration only. -/
theorem unique (copies : scope.Copies d e) (copies' : scope.Copies d' e) : d = d' := by
  obtain ⟨declared', core'⟩ := copies'
  exact copies.eq_of_declared declared' (Definition.importPath_eq_of_core core'.symm)
    (Definition.name_eq_of_core core'.symm)

/-- A reference resolves to the declaration if and only if it stands in the first unit that declares
the name. -/
theorem resolves_iff (unchanging : scope.loader.Unchanging) (copies : scope.Copies d e)
    {referring : ImportPath} {text : String} :
    scope.resolved? referring text = some d ↔
      e.name = (TypeText.reference text).name ∧ scope.First referring text e.importPath := by
  obtain ⟨declares, core⟩ := copies
  rw [resolved?_eq_some_iff unchanging, found_eq_some_iff, Definition.name_eq_of_core core,
    Definition.importPath_eq_of_core core]
  constructor
  · rintro ⟨before, path, after, split, earlier, here⟩
    obtain ⟨samePath, sameName⟩ := (offers_of_declared here).core_eq
    rw [samePath]
    exact ⟨sameName, before, after, split, earlier⟩
  · rintro ⟨sameName, before, after, split, earlier⟩
    rw [sameName] at declares
    exact ⟨before, d.importPath, after, split, earlier, declares⟩

end Copies

end Scope

end ApiDocs
