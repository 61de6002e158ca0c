import ApiDocs.Proofs.Definer.Course

/-!
# The store only grows

Every call to a definer runs a course of acts, whatever it returns. The one act that could spoil the
store is the writing back of a definition, because it is worked on as a copy while others are
defined. It does not: until then nobody else touches what is stored under a visited name (`Ran`).
`session_evolves` says what this means for all calls in a row, at every moment of them.
-/

namespace ApiDocs

/-! ## Runs -/

/-- The state is left by a course that does not touch what is stored under visited names. -/
structure Ran (scope : Scope) (state left : Definer) : Prop where
  course : ∃ acts, Course scope state acts left
  defined : ∀ name ∈ state.defined, name ∈ left.defined
  fixed : ∀ name ∈ state.defined, ∀ d, state.store.get? name = some d →
    left.store.get? name = some d

namespace Ran

variable {scope : Scope} {state middle left : Definer}

theorem refl (state : Definer) : Ran scope state state :=
  ⟨⟨[], .done state⟩, fun _ visited => visited, fun _ _ _ known => known⟩

/-- Runs one after the other are a run, and what was visited before both stays untouched by both. -/
theorem trans (first : Ran scope state middle) (second : Ran scope middle left) :
    Ran scope state left := by
  obtain ⟨acts, course⟩ := first.course
  obtain ⟨more, rest⟩ := second.course
  exact ⟨⟨acts ++ more, course.append rest⟩,
    fun name visited => second.defined name (first.defined name visited),
    fun name visited d known => second.fixed name (first.defined name visited) d
      (first.fixed name visited d known)⟩

theorem note (state : Definer) (notices : List Notice) :
    Ran scope state ((Act.note notices).apply scope state) :=
  ⟨⟨_, .act (.note notices) trivial (.done _)⟩, fun _ visited => visited, fun _ _ _ known => known⟩

theorem visit {name : String} (fresh : name ∉ state.defined) :
    Ran scope state ((Act.visit name).apply scope state) :=
  ⟨⟨_, .act (.visit name) fresh (.done _)⟩, fun _ visited => List.mem_cons_of_mem _ visited,
    fun _ _ _ known => known⟩

theorem find (state : Definer) (referring : ImportPath) (text : String) :
    Ran scope state ((Act.find referring text).apply scope state) := by
  obtain ⟨defined, kept⟩ := Act.find_keeps scope state referring text
  exact ⟨⟨_, .act (.find referring text) trivial (.done _)⟩, fun _ visited => defined ▸ visited,
    fun name _ d known => kept name d known⟩

/-- A definition may be written back over what it goes on from, if its name was not visited at the
beginning. -/
theorem write (ran : Ran scope state left) {d d' : Definition}
    (known : left.store.get? d.canonical = some d) (becomes : d.Becomes d')
    (fresh : d.canonical ∉ state.defined) :
    Ran scope state { left with store := left.store.add d' } := by
  have same : d'.canonical = d.canonical := Definition.canonical_eq_of_core becomes.core
  obtain ⟨acts, course⟩ := ran.course
  refine ⟨⟨_, course.append (.act (.write d') ⟨d, same ▸ known, becomes⟩ (.done _))⟩, ran.defined,
    fun name visited e stored => ?_⟩
  have differs : d'.canonical ≠ name := fun equal => fresh (same ▸ equal ▸ visited)
  exact (Store.get?_add_of_ne differs).trans (ran.fixed name visited e stored)

end Ran

/-- However the run ends, it ran; and its result is good if it succeeds. -/
def Leads {α : Type} (scope : Scope) (state : Definer) (run : Except Failure α × Definer)
    (good : α → Prop) : Prop :=
  Ends run (fun result left => Ran scope state left ∧ good result)
    fun _ left => Ran scope state left

namespace Leads

variable {α β : Type} {scope : Scope} {state : Definer}

/-- What is composed of steps runs if each of them does, from the state that the one before it
leaves. -/
theorem bind {first : Defining α} {next : α → Defining β} {good : α → Prop} {goodNext : β → Prop}
    (leads : Leads scope state (first state) good)
    (leadsNext : ∀ result left, Ran scope state left → good result →
      Leads scope left (next result left) goodNext) :
    Leads scope state ((first >>= next) state) goodNext :=
  Ends.bind (leads.mono (fun result left ⟨ran, holds⟩ =>
    (leadsNext result left ran holds).mono (fun _ _ ⟨rest, done⟩ => ⟨ran.trans rest, done⟩)
      fun _ _ rest => ran.trans rest) fun _ _ ran => ran)

theorem pure {result : α} {good : α → Prop} (holds : good result) :
    Leads scope state ((pure result : Defining α) state) good :=
  ⟨.refl state, holds⟩

theorem throw {failure : Failure} {good : α → Prop} :
    Leads scope state ((throw failure : Defining α) state) good :=
  Ran.refl state

end Leads

/-! ## What definers run -/

namespace Scope

variable {scope : Scope}

/-- A lookup adds at most a definition that was missing. -/
theorem find_leads (state : Definer) (referring : ImportPath) (text : String) :
    Leads scope state (scope.find referring text state) fun _ => True := by
  have ran : Ran scope state (scope.find referring text state).2 := .find state referring text
  refine Ends.of_cases (fun found left same => ?_) fun failure left same => ?_
  · rw [same] at ran
    exact ⟨ran, trivial⟩
  · rw [same] at ran
    exact ran

theorem note_leads (state : Definer) (notices : List Notice) :
    Leads scope state (Defining.reading (Reading.report notices) state) fun _ => True :=
  ⟨Ran.note state notices, trivial⟩

section Visiting

variable {visit : String → Defining Unit}
  (visits : ∀ name state, Leads scope state (visit name state) fun _ => True)

include visits

/-- Setting targets runs, and the member gains targets and nothing else. -/
theorem targetMember_leads (referring : ImportPath) (m : Member) (state : Definer) :
    Leads scope state (scope.targetMember visit referring m state) m.Gains := by
  induction m generalizing state with
  | scalar info text target =>
      rw [targetMember]
      split
      · exact Leads.pure (.refl _)
      · rename_i needs
        have absent : target = none := by simpa using (by simpa using needs : _ ∧ _).2
        refine Leads.bind (find_leads state referring text) fun found left ran _ => ?_
        cases found with
        | none => exact Leads.throw
        | some d =>
            refine Leads.bind (visits d.canonical left) fun _ _ _ _ => ?_
            exact Leads.pure (.scalar (Or.inl absent))
  | collection info element ih =>
      exact Leads.bind (ih state) fun _ _ _ gains => Leads.pure (.collection gains)
  | mapping info key value ihKey ihValue =>
      refine Leads.bind (ihKey state) fun _ left _ gainsKey => ?_
      refine Leads.bind (ihValue left) fun _ _ _ gainsValue => ?_
      exact Leads.pure (.mapping gainsKey gainsValue)

/-- Setting the targets of all members runs, member by member. -/
theorem targetMembers_leads (path : ImportPath) (members : Table Member) (state : Definer) :
    Leads scope state (scope.targetMembers visit path members state) (GainsAll members) := by
  induction members generalizing state with
  | nil => exact Leads.pure .nil
  | cons entry members ih =>
      refine Leads.bind (targetMember_leads visits _ entry.2 state) fun _ left _ gains => ?_
      refine Leads.bind (ih left) fun _ _ _ rest => ?_
      exact Leads.pure (.cons ⟨rfl, gains⟩ rest)

/-- Merging adds members behind those of the host. -/
theorem mergeEmbedded_leads (host : Definition) (text : String) (state : Definer) :
    Leads scope state (scope.mergeEmbedded visit host text state) host.Becomes := by
  rw [mergeEmbedded]
  split
  · exact Leads.bind (note_leads state _) fun _ _ _ _ => Leads.pure (.refl host)
  · refine Leads.bind (find_leads state _ text) fun found left _ _ => ?_
    cases found with
    | none => exact Leads.throw
    | some d =>
        refine Leads.bind (visits d.canonical left) fun _ later _ _ => ?_
        refine Ends.bind (Ends.get ?_)
        cases later.store.get? d.canonical with
        | none => exact Leads.pure (.refl host)
        | some source =>
            obtain ⟨taken, merged, _⟩ := mergeMembers_eq_append host.members source.members
            exact Leads.pure ⟨rfl, host.members, taken, merged, .refl _⟩

/-- Merging what is embedded runs, text by text, and adds members behind those of the host. -/
theorem mergeAll_leads (texts : List String) (host : Definition) (state : Definer) :
    Leads scope state (scope.mergeAll visit host texts state) host.Becomes := by
  induction texts generalizing host state with
  | nil => exact Leads.pure (.refl host)
  | cons text texts ih =>
      refine Leads.bind (mergeEmbedded_leads visits host text state) fun host' left _ becomes => ?_
      exact (ih host' left).mono (fun _ _ ⟨rest, goesOn⟩ => ⟨rest, becomes.trans goesOn⟩)
        fun _ _ rest => rest

theorem flattenWith_leads (d : Definition) (state : Definer) :
    Leads scope state (scope.flattenWith visit d state) d.Becomes :=
  (mergeAll_leads visits d.embedded { d with embedded := [] } state).mono
    (fun _ _ ⟨ran, becomes⟩ => ⟨ran, becomes.core, becomes.members⟩) fun _ _ ran => ran

/-- A definition whose name is visited is still as it was when what became of it is written back. -/
theorem complete_ends (d : Definition) (state : Definer)
    (visited : d.canonical ∈ state.defined) (known : state.store.get? d.canonical = some d) :
    Ends (scope.complete visit d state)
      (fun _ left => ∃ middle d', Ran scope state middle ∧
        middle.store.get? d.canonical = some d ∧ d.Becomes d' ∧
        left = { middle with store := middle.store.add d' })
      fun _ left => Ran scope state left := by
  refine Ends.bind ((flattenWith_leads visits d state).mono (fun merged left ⟨ran, becomes⟩ => ?_)
    fun _ _ ran => ran)
  refine Ends.bind ((targetMembers_leads visits merged.importPath merged.members left).mono
    (fun members later ⟨rest, gains⟩ => ?_) fun _ _ rest => ran.trans rest)
  have whole := ran.trans rest
  have gained : merged.Becomes { merged with members } :=
    ⟨rfl, members, [], (List.append_nil members).symm, gains⟩
  exact Ends.modify ⟨later, { merged with members }, whole, whole.fixed _ visited d known,
    becomes.trans gained, rfl⟩

end Visiting

/-- The visit of a name runs at every bound. What it writes back goes on from what is stored, as
nobody else touches a visited name. -/
theorem defineAll_leads (bound : Nat) (name : String) (state : Definer) :
    Leads scope state (scope.defineAll bound name state) fun _ => True := by
  induction bound generalizing name state with
  | zero =>
      refine Ends.bind (Ends.get ?_)
      split
      · exact Leads.pure trivial
      · exact Leads.throw
  | succ bound ih =>
      refine Ends.bind (Ends.get ?_)
      split
      · exact Leads.pure trivial
      · rename_i notContained
        have fresh : name ∉ state.defined := fun visited =>
          notContained (List.contains_iff_mem.mpr visited)
        have enters : Ran scope state ((Act.visit name).apply scope state) := .visit fresh
        refine Ends.bind (Ends.set ?_)
        cases known : state.store.get? name with
        | none => exact ⟨enters.trans (.note _ _), trivial⟩
        | some d =>
            cases Store.canonical_of_get? known
            refine (complete_ends ih d ((Act.visit d.canonical).apply scope state)
              List.mem_cons_self known).mono ?_ fun _ _ ran => enters.trans ran
            rintro _ _ ⟨middle, d', ran, still, becomes, rfl⟩
            exact ⟨(enters.trans ran).write still becomes fresh, trivial⟩

end Scope

/-! ## Sessions -/

/-- What a definer is asked for: targets for a member, a stored name, or the members of what a
definition embeds. -/
inductive Call where
  | member (referring : ImportPath) (m : Member)
  | name (canonical : String)
  | embedded (d : Definition)

/-- The state that a call leaves, whether it succeeds or fails. -/
def Call.after (scope : Scope) (state : Definer) : Call → Definer
  | .member referring m => (Definer.defineMember scope referring m state).2
  | .name canonical => (Definer.define scope canonical state).2
  | .embedded d => (Definer.flatten scope d state).2

theorem Leads.ran {α : Type} {scope : Scope} {state : Definer} {run : Except Failure α × Definer}
    {good : α → Prop} (leads : Leads scope state run good) : Ran scope state run.2 :=
  Ends.snd (leads.mono (fun _ _ both => both.1) fun _ _ ran => ran)

/-- Every call runs, whatever it returns. -/
theorem Call.ran (scope : Scope) (state : Definer) (call : Call) :
    Ran scope state (call.after scope state) := by
  have visits := @Scope.defineAll_leads scope (Definer.depth scope state)
  cases call with
  | member referring m =>
      exact Leads.ran (Ends.bind (Ends.get (Scope.targetMember_leads visits referring m state)))
  | name canonical => exact Leads.ran (Ends.bind (Ends.get (visits canonical state)))
  | embedded d => exact Leads.ran (Ends.bind (Ends.get (Scope.flattenWith_leads visits d state)))

/-- Calls in a row, each from the state that the one before it leaves, and the acts they do. -/
inductive Session (scope : Scope) : Definer → List Call → List (Definer × Act) → Definer → Prop
  | done (state : Definer) : Session scope state [] [] state
  | call {state left : Definer} {calls : List Call} {acts more : List (Definer × Act)}
      (call : Call) :
    Course scope state acts (call.after scope state) →
    Session scope (call.after scope state) calls more left →
    Session scope state (call :: calls) (acts ++ more) left

/-- The acts of calls in a row make up one course. -/
theorem Session.course {scope : Scope} {state left : Definer} {calls : List Call}
    {acts : List (Definer × Act)} (session : Session scope state calls acts left) :
    Course scope state acts left := by
  induction session with
  | done state => exact .done state
  | call call course _ ih => exact course.append ih

end ApiDocs
