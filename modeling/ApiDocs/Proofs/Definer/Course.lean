import ApiDocs.Proofs.Definer.Step

/-!
# The course of a definer

Four acts change the state of a definer: a reference is looked up, a name is marked as visited, a
notice is reported, and a definition is written back. `Course` puts acts in a row, each done in the
state that the one before it leaves. Whatever a definer is asked for, and whether it succeeds or
fails, what it does is such a course (`Ran`), in which a definition is written back only in place of
one that it goes on from (`Definition.Becomes`). So what is known about single acts holds at every
moment: nothing leaves the store, and no name is produced twice.
-/

namespace ApiDocs

/-! ## What definitions go on as -/

/-- The same member, perhaps with targets that were absent. -/
inductive Member.Gains : Member → Member → Prop
  | scalar {info : MemberInfo} {text : String} {target target' : Option TargetUnit} :
    target = none ∨ target' = target → Gains (.scalar info text target) (.scalar info text target')
  | collection {info : MemberInfo} {element element' : Member} :
    Gains element element' → Gains (.collection info element) (.collection info element')
  | mapping {info : MemberInfo} {key key' value value' : Member} :
    Gains key key' → Gains value value' →
    Gains (.mapping info key value) (.mapping info key' value')

namespace Member.Gains

theorem refl (m : Member) : m.Gains m := by
  induction m with
  | scalar info text target => exact .scalar (Or.inr rfl)
  | collection info element ih => exact .collection ih
  | mapping info key value ihKey ihValue => exact .mapping ihKey ihValue

theorem trans {first second third : Member} (gains : first.Gains second)
    (more : second.Gains third) : first.Gains third := by
  induction gains generalizing third with
  | scalar absent =>
      cases more with
      | scalar absent' =>
          rcases absent with rfl | rfl
          · exact .scalar (Or.inl rfl)
          · exact .scalar absent'
  | collection _ ih =>
      cases more with
      | collection more => exact .collection (ih more)
  | mapping _ _ ihKey ihValue =>
      cases more with
      | mapping moreKey moreValue => exact .mapping (ihKey moreKey) (ihValue moreValue)

end Member.Gains

/-- Members under the same keys in the same order, perhaps with more targets. -/
def GainsAll : Table Member → Table Member → Prop :=
  List.Forall₂ fun entry entry' => entry'.1 = entry.1 ∧ entry.2.Gains entry'.2

theorem GainsAll.refl (members : Table Member) : GainsAll members members :=
  List.forall₂_same.mpr fun entry _ => ⟨rfl, .refl entry.2⟩

theorem GainsAll.trans {first second third : Table Member} (gains : GainsAll first second)
    (more : GainsAll second third) : GainsAll first third := by
  induction gains generalizing third with
  | nil => exact more
  | cons here _ ih =>
      cases more with
      | cons here' rest' => exact .cons ⟨here'.1.trans here.1, here.2.trans here'.2⟩ (ih rest')

/-- What members gain, their beginning gains. -/
theorem GainsAll.beginning {first rest gained : Table Member}
    (gains : GainsAll (first ++ rest) gained) :
    ∃ kept more, gained = kept ++ more ∧ GainsAll first kept := by
  induction first generalizing gained with
  | nil => exact ⟨[], gained, rfl, .nil⟩
  | cons entry first ih =>
      cases gains with
      | cons here gains =>
          obtain ⟨kept, more, rfl, rest⟩ := ih gains
          exact ⟨_ :: kept, more, rfl, .cons here rest⟩

/-- The definition goes on as another one: nothing changes but its members, which gain targets and
are followed by more, and what it embeds. -/
structure Definition.Becomes (d d' : Definition) : Prop where
  core : d'.core = d.core
  members : ∃ kept more, d'.members = kept ++ more ∧ GainsAll d.members kept

namespace Definition.Becomes

theorem refl (d : Definition) : d.Becomes d :=
  ⟨rfl, d.members, [], (List.append_nil _).symm, .refl _⟩

theorem trans {d d' d'' : Definition} (first : d.Becomes d') (second : d'.Becomes d'') :
    d.Becomes d'' := by
  obtain ⟨core, kept, more, members, gains⟩ := first
  obtain ⟨core', kept', more', members', gains'⟩ := second
  refine ⟨core'.trans core, ?_⟩
  rw [members] at gains'
  obtain ⟨keptFirst, keptMore, rfl, gainsFirst⟩ := gains'.beginning
  exact ⟨keptFirst, keptMore ++ more', by rw [members', List.append_assoc], gains.trans gainsFirst⟩

end Definition.Becomes

/-! ## Acts -/

/-- What changes the state of a definer. -/
inductive Act where
  /-- A reference is looked up, and resolved and stored if need be. -/
  | find (referring : ImportPath) (text : String)
  /-- A name is marked as visited. -/
  | visit (name : String)
  /-- Notices are reported. -/
  | note (notices : List Notice)
  /-- A definition is written back. -/
  | write (d : Definition)

namespace Act

/-- The state after an act. -/
def apply (scope : Scope) (state : Definer) : Act → Definer
  | .find referring text => (scope.find referring text state).2
  | .visit name => { state with defined := name :: state.defined }
  | .note notices =>
    { state with journal := { state.journal with notices := state.journal.notices ++ notices } }
  | .write d => { state with store := state.store.add d }

/-- Names are visited once, and what is written back goes on from what is stored. -/
def Allowed (state : Definer) : Act → Prop
  | .visit name => name ∉ state.defined
  | .write d => ∃ stored, state.store.get? d.canonical = some stored ∧ stored.Becomes d
  | _ => True

/-- The name that an act produces by resolution. -/
def produced? (scope : Scope) (state : Definer) : Act → Option String
  | .find referring text =>
    match state.store.lookup scope.graph referring text with
    | some _ => none
    | none =>
      match (scope.resolve referring text state.journal).1 with
      | .ok (some d) => some d.canonical
      | _ => none
  | _ => none

end Act

/-- A row of acts from one state to another, each with the state that it is done in. -/
inductive Course (scope : Scope) : Definer → List (Definer × Act) → Definer → Prop
  | done (state : Definer) : Course scope state [] state
  | act {state left : Definer} {acts : List (Definer × Act)} (act : Act) :
    act.Allowed state → Course scope (act.apply scope state) acts left →
    Course scope state ((state, act) :: acts) left

/-- Everything stored is still stored in a form that it goes on as. -/
def Definer.Evolves (state state' : Definer) : Prop :=
  ∀ name d, state.store.get? name = some d →
    ∃ d', state'.store.get? name = some d' ∧ d.Becomes d'

namespace Definer.Evolves

theorem refl (state : Definer) : state.Evolves state := fun _ d known => ⟨d, known, .refl d⟩

theorem trans {first second third : Definer} (evolves : first.Evolves second)
    (more : second.Evolves third) : first.Evolves third := fun name d known => by
  obtain ⟨d', known', becomes⟩ := evolves name d known
  obtain ⟨d'', known'', becomes'⟩ := more name d' known'
  exact ⟨d'', known'', becomes.trans becomes'⟩

end Definer.Evolves

section Acts

variable {scope : Scope} {state : Definer}

/-- A lookup that finds something in the store changes nothing. -/
theorem Scope.find_of_lookup {referring : ImportPath} {text : String} {d : Definition}
    (found : state.store.lookup scope.graph referring text = some d) :
    scope.find referring text state = (.ok (some d), state) := by
  rw [find, Stepping.get_bind, found]
  rfl

/-- The state after resolution gave an answer. -/
def Definer.resolved (state : Definer) (journal : Journal) :
    Except Failure (Option Definition) → Definer
  | .ok (some d) => { state with store := state.store.add d, journal }
  | _ => { state with journal }

/-- A lookup that finds nothing in the store gives what resolution gives. -/
theorem Scope.find_of_missed {referring : ImportPath} {text : String}
    (missed : state.store.lookup scope.graph referring text = none)
    {answer : Except Failure (Option Definition)} {journal : Journal}
    (ran : scope.resolve referring text state.journal = (answer, journal)) :
    scope.find referring text state = (answer, state.resolved journal answer) := by
  have read : Defining.reading (scope.resolve referring text) state =
      (answer, { state with journal }) := by rw [Defining.reading, ran]
  rw [find, Stepping.get_bind, missed]
  cases answer with
  | error failure => exact Stepping.bind_error read
  | ok found =>
      dsimp only
      rw [Stepping.bind_ok read]
      cases found <;> rfl

/-- A lookup finds something in the store and changes nothing, or it resolves the reference and
stores what it produces. -/
theorem Act.find_cases (scope : Scope) (state : Definer) (referring : ImportPath) (text : String) :
    ((∃ d, state.store.lookup scope.graph referring text = some d) ∧
      (Act.find referring text).apply scope state = state ∧
      (Act.find referring text).produced? scope state = none) ∨
    state.store.lookup scope.graph referring text = none ∧ ∃ journal,
      ((∃ d, scope.resolve referring text state.journal = (.ok (some d), journal) ∧
        (Act.find referring text).apply scope state =
          { state with store := state.store.add d, journal } ∧
        (Act.find referring text).produced? scope state = some d.canonical) ∨
      (Act.find referring text).apply scope state = { state with journal } ∧
        (Act.find referring text).produced? scope state = none) := by
  cases found : state.store.lookup scope.graph referring text with
  | some d =>
      refine Or.inl ⟨⟨d, rfl⟩, ?_, ?_⟩
      · rw [apply, Scope.find_of_lookup found]
      · rw [produced?, found]
  | none =>
      refine Or.inr ⟨rfl, ?_⟩
      cases ran : scope.resolve referring text state.journal with
      | mk answer journal =>
          rw [apply, produced?, found, Scope.find_of_missed found ran, ran]
          refine ⟨journal, ?_⟩
          rcases answer with failure | _ | d
          · exact Or.inr ⟨rfl, rfl⟩
          · exact Or.inr ⟨rfl, rfl⟩
          · exact Or.inl ⟨d, rfl, rfl, rfl⟩

/-- A lookup leaves alone what is stored and what is visited. -/
theorem Act.find_keeps (scope : Scope) (state : Definer) (referring : ImportPath) (text : String) :
    ((Act.find referring text).apply scope state).defined = state.defined ∧
      ∀ name e, state.store.get? name = some e →
        ((Act.find referring text).apply scope state).store.get? name = some e := by
  rcases Act.find_cases scope state referring text with ⟨_, same, _⟩ | ⟨missed, journal, cases⟩
  · rw [same]
    exact ⟨rfl, fun _ _ known => known⟩
  · rcases cases with ⟨d, resolves, made, _⟩ | ⟨made, _⟩
    · rw [made]
      refine ⟨rfl, fun name e known => ?_⟩
      rw [Store.get?_add_of_ne]
      · exact known
      · rintro rfl
        cases (Step.get?_of_miss missed resolves).symm.trans known
    · rw [made]
      exact ⟨rfl, fun _ _ known => known⟩

/-- An act keeps all that is stored. -/
theorem Act.evolves {act : Act} (allowed : act.Allowed state) :
    state.Evolves (act.apply scope state) := by
  cases act with
  | find referring text =>
      intro name e known
      exact ⟨e, (Act.find_keeps scope state referring text).2 name e known, .refl e⟩
  | visit name => exact fun name e known => ⟨e, known, .refl e⟩
  | note notices => exact fun name e known => ⟨e, known, .refl e⟩
  | write d =>
      obtain ⟨stored, given, becomes⟩ := allowed
      intro name e known
      by_cases same : d.canonical = name
      · subst same
        cases given.symm.trans known
        exact ⟨d, Store.get?_add_self state.store d, becomes⟩
      · exact ⟨e, (Store.get?_add_of_ne same).trans known, .refl e⟩

end Acts

/-! ## Courses -/

namespace Course

variable {scope : Scope} {state middle left : Definer} {acts more : List (Definer × Act)}

theorem append (course : Course scope state acts middle) (rest : Course scope middle more left) :
    Course scope state (acts ++ more) left := by
  induction course with
  | done state => exact rest
  | act act allowed _ ih => exact .act act allowed (ih rest)

/-- At every moment all that was stored at the beginning is stored. -/
theorem evolves_to (course : Course scope state acts left) :
    ∀ moment ∈ acts.map Prod.fst ++ [left], state.Evolves moment := by
  induction course with
  | done state =>
      intro moment among
      rw [List.mem_singleton.mp among]
      exact .refl state
  | act act allowed _ ih =>
      intro moment among
      rcases List.mem_cons.mp among with rfl | later
      · exact .refl _
      · exact (Act.evolves allowed).trans (ih moment later)

theorem evolves (course : Course scope state acts left) : state.Evolves left :=
  course.evolves_to left (List.mem_append_right _ (List.mem_singleton_self left))

end Course

end ApiDocs
