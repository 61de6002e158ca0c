import ApiDocs.Proofs.Definer.Trace
import ApiDocs.Proofs.Growth

/-!
# What failed calls leave behind

A name is marked as visited before its definition is completed, and it stays marked if that fails.
So a failed call leaves the definitions that were open as they were resolved, with references that
have no targets, and a later call that meets them passes over them and succeeds. Likewise a name
that was asked for while nothing was stored under it.

Between calls everything stored is visited (`Definer.Resting`), so nothing that is stored then ever
changes. `defineMember_finishes_unless_abandoned` says what this means for a call after any others.
-/

namespace ApiDocs

/-! ## Where targets point -/

/-- Every target inside the member is the unit of a definition that is stored under the name of its
reference in some unit. -/
def Member.Points (store : Store) : Member → Prop
  | .scalar _ text target => ∀ unit, target = some unit →
    ∃ path d, store.get? (canonicalName path (TypeText.reference text).name) = some d ∧
      d.target = unit
  | .collection _ element => element.Points store
  | .mapping _ key value => key.Points store ∧ value.Points store

namespace Member

theorem points_bare (store : Store) (m : Member) : m.bare.Points store := by
  induction m with
  | scalar info text target => exact nofun
  | collection info element ih => exact ih
  | mapping info key value ihKey ihValue => exact ⟨ihKey, ihValue⟩

theorem Points.grow {state state' : Definer} (grows : state.Grows state') {m : Member}
    (points : m.Points state.store) : m.Points state'.store := by
  induction m with
  | scalar info text target =>
      intro unit set
      obtain ⟨path, d, known, rfl⟩ := points unit set
      obtain ⟨d', known', core⟩ := grows.stored _ d known
      exact ⟨path, d', known', Definition.target_eq_of_core core⟩
  | collection info element ih => exact ih points
  | mapping info key value ihKey ihValue => exact ⟨ihKey points.1, ihValue points.2⟩

end Member

/-- Getting targets keeps it that a member points to stored definitions. -/
theorem Scope.Targets.points {scope : Scope} {state : Definer} {referring : ImportPath}
    {m m' : Member} (targeted : scope.Targets state referring m m')
    (points : m.Points state.store) : m'.Points state.store := by
  induction targeted with
  | kept settled => exact points
  | found needs named visited =>
      intro unit set
      cases set
      obtain ⟨path, _, known⟩ := named
      exact ⟨path, _, known, rfl⟩
  | collection _ ih => exact ih points
  | mapping _ _ ihKey ihValue => exact ⟨ihKey points.1, ihValue points.2⟩

/-- All targets of the definition point to what is stored. -/
def Definition.Points (state : Definer) (d : Definition) : Prop :=
  ∀ entry ∈ d.members, entry.2.Points state.store

/-- It lasts that the targets of members point to stored definitions. -/
theorem lasting_points (scope : Scope) (roots : ImportPath → String → Prop)
    (supply : List String) : Lasting scope roots supply Definition.Points where
  grow grows points entry among := (points entry among).grow grows
  resolve {conf referring text d journal} _ _ _ resolves entry among := by
    obtain ⟨path, _, offers⟩ := (scope.resolve_offers referring text _).ok resolves d rfl
    rw [← offers.bareMembers_eq] at among
    obtain ⟨declared, _, rfl⟩ := List.mem_map.mp among
    exact Member.points_bare _ _
  skip _ _ points := points
  merge {conf host source stack text texts} _ all top _ _ named entry among := by
    obtain ⟨path, _, known⟩ := named
    obtain ⟨taken, merged, drawn⟩ := Scope.mergeMembers_eq_append host.members source.members
    rw [merged] at among
    rcases List.mem_append.mp among with ours | theirs
    · exact all.opened host (top ▸ List.mem_cons_self) entry ours
    · exact all.stored _ source known entry (drawn entry theirs)
  close {conf host stack members} _ all top _ targeted entry among := by
    obtain ⟨entry, declared, _, targets⟩ := targeted.exists_targets among
    exact targets.points (all.opened host (top ▸ List.mem_cons_self) entry declared)

/-! ## Between calls -/

/-- A state between calls: what is stored is visited, and its targets point to what is stored. -/
structure Definer.Resting (state : Definer) : Prop where
  reached : ∀ name d, state.store.get? name = some d → name ∈ state.defined
  points : ∀ name d, state.store.get? name = some d → d.Points state

namespace Call

/-- The call returns a failure. -/
def Fails (scope : Scope) (state : Definer) : Call → Prop
  | .member referring m =>
    ∃ failure, (Definer.defineMember scope referring m state).1 = .error failure
  | .name canonical => ∃ failure, (Definer.define scope canonical state).1 = .error failure
  | .embedded d => ∃ failure, (Definer.flatten scope d state).1 = .error failure

/-- The names that a call need not finish: those visited before, and the one that it is for if
nothing is stored under it. -/
def Apart (state : Definer) (call : Call) (name : String) : Prop :=
  name ∈ state.defined ∨ call = .name name ∧ state.store.get? name = none

end Call

/-- A run that opens and closes is a sequence of steps, and leaves nothing open unless it fails. -/
theorem Follows.exists_steps {α : Type} {scope : Scope} {roots : ImportPath → String → Prop}
    {start : Conf} {run : Except Failure α × Definer} {good : α → Definer → Prop}
    (follows : Follows scope roots start run (fun _ => []) good) :
    ∃ stack, Steps scope roots start ⟨stack, none, run.2⟩ ∧
      ((∃ failure, run.1 = .error failure) ∨ stack = []) := by
  obtain ⟨failure | result, left⟩ := run
  · obtain ⟨stack, steps, _⟩ := follows
    exact ⟨stack, steps, Or.inl ⟨failure, rfl⟩⟩
  · exact ⟨[], follows.1, Or.inr rfl⟩

section Calls

variable {scope : Scope}

/-- Any reference. -/
def anyReference (_ : ImportPath) (_ : String) : Prop := True

/-- Merging on its own follows the steps of the machine, apart from any definition under way. -/
theorem Scope.mergeAll_follows_apart {supply : List String} {bound : Nat}
    {visit : String → Defining Unit} (visits : Visits scope anyReference supply bound visit)
    (within : ∀ name ∈ scope.names, name ∈ supply) (texts : List String) (host : Definition)
    {state : Definer} (sound : Conf.Sound supply ⟨[], none, state⟩)
    (room : state.unvisited supply ≤ bound) :
    Follows scope anyReference ⟨[], none, state⟩ (scope.mergeAll visit host texts state)
      (fun _ => []) fun _ _ => True := by
  induction texts generalizing host state with
  | nil => exact Follows.pure trivial .refl
  | cons text texts ih =>
      have merges : Follows scope anyReference ⟨[], none, state⟩
          (scope.mergeEmbedded visit host text state) (fun _ => []) fun _ _ => True := by
        rw [mergeEmbedded]
        split
        · refine Ends.bind (Defining.ends_reading (Ends.modify ?_))
          exact Ends.pure ⟨.single (.read _), trivial⟩
        · refine find_follows rfl (fun _ => rfl) visits within (.root trivial) sound room ?_
          intro d source left _ known _ _ _
          refine Ends.bind (Ends.get ?_)
          rw [known]
          exact Follows.pure trivial .refl
      refine Follows.bind merges fun host' left steps _ => ?_
      have grows := steps.grows within sound
      exact ih host' (steps.sound within sound) (Nat.le_trans (grows.unvisited_le supply) room)

/-- A single call follows the steps of the machine from an empty stack. -/
theorem Definer.define_follows (scope : Scope) (name : String) (state : Definer) :
    Follows scope anyReference ⟨[], some name, state⟩ (define scope name state) (fun _ => [])
      fun _ _ => True := by
  have within := mem_allNames scope state
  have sound := sound_allNames scope state (some name)
  refine Ends.bind (Ends.get ?_)
  cases known : state.store.get? name with
  | some d =>
      exact (Scope.defineAll_follows within _ [] name state d sound known
        (unvisited_allNames_le state)).mono (fun _ _ ⟨steps, _⟩ => ⟨steps, trivial⟩)
        fun _ _ stops => stops
  | none =>
      refine Ends.bind (Ends.get ?_)
      split
      · rename_i contained
        exact Follows.pure trivial (.single (.pass (List.contains_iff_mem.mp contained)))
      · rename_i notContained
        have fresh : name ∉ state.defined := fun visited =>
          notContained (List.contains_iff_mem.mpr visited)
        refine Ends.bind (Ends.set ?_)
        rw [known]
        exact Defining.ends_reading (Ends.modify
          ⟨.tail (.single (.absent fresh known)) (.read _), trivial⟩)

/-- A call is a sequence of steps, and leaves nothing open unless it fails. -/
theorem Call.exists_steps (scope : Scope) (state : Definer) (call : Call) :
    ∃ waiting stack,
      Steps scope anyReference ⟨[], waiting, state⟩ ⟨stack, none, call.after scope state⟩ ∧
      (∀ name, waiting = some name → call = .name name) ∧
      (call.Fails scope state ∨ stack = []) := by
  have within := Definer.mem_allNames scope state
  have sound := Definer.sound_allNames scope state none
  cases call with
  | member referring m =>
      have follows := @Definer.defineMember_follows scope anyReference referring m state
        fun _ _ => trivial
      obtain ⟨stack, steps, ends⟩ := follows.exists_steps
      exact ⟨none, stack, steps, nofun, ends⟩
  | name canonical =>
      obtain ⟨stack, steps, ends⟩ :=
        (Definer.define_follows scope canonical state).exists_steps
      exact ⟨some canonical, stack, steps, fun _ same => congrArg _ (Option.some.inj same), ends⟩
  | embedded d =>
      have follows : Follows scope anyReference ⟨[], none, state⟩ (Definer.flatten scope d state)
          (fun _ => []) fun _ _ => True :=
        Ends.bind (Ends.get (Scope.mergeAll_follows_apart (Scope.defineAll_follows within _) within
          d.embedded _ sound (Definer.unvisited_allNames_le state)))
      obtain ⟨stack, steps, ends⟩ := follows.exists_steps
      exact ⟨none, stack, steps, nofun, ends⟩

/-- After a call everything stored is visited again, and a call that does not fail finishes all that
it is first to visit. -/
theorem Call.rests (scope : Scope) {state : Definer} (resting : state.Resting) (call : Call) :
    (call.after scope state).Resting ∧
      (call.Fails scope state ∨ ∀ name ∈ (call.after scope state).defined,
        call.Apart state name ∨
        ∃ d, (call.after scope state).store.get? name = some d ∧ d.Finished) := by
  obtain ⟨waiting, stack, steps, named, ends⟩ := call.exists_steps scope state
  have sound := Definer.sound_allNames scope state waiting
  have all : Conf.All Definition.Points ⟨[], waiting, state⟩ := ⟨resting.points, nofun⟩
  have ordered : Conf.Ordered (call.Apart state) ⟨[], waiting, state⟩ := by
    refine ⟨fun name waits => ?_, fun name d known => Or.inl (resting.reached name d known),
      fun name visited => Or.inl (Or.inl visited)⟩
    cases known : state.store.get? name with
    | none => exact Or.inl (Or.inr ⟨named name waits, known⟩)
    | some d => exact Or.inr ⟨d, rfl⟩
  have within := Definer.mem_allNames scope state
  have allLeft := steps.all (lasting_points scope _ _) within sound all
  have orderedLeft := steps.ordered within sound ordered
  refine ⟨⟨fun name d known => (orderedLeft.reached name d known).resolve_right nofun,
    allLeft.stored⟩, ?_⟩
  refine ends.imp_right fun closed name visited => ?_
  subst closed
  exact (orderedLeft.visited name visited).imp_right fun known => known.resolve_left nofun

/-! ## Calls that are repeated -/

namespace Scope

/-- A name that was visited is not defined again. -/
theorem defineAll_of_visited {bound : Nat} {name : String} {state : Definer}
    (visited : name ∈ state.defined) : scope.defineAll bound name state = (.ok (), state) := by
  rw [defineAll.eq_def]
  dsimp only
  rw [Stepping.get_bind, if_pos (List.contains_iff_mem.mpr visited)]
  rfl

theorem exists_lookup_of_names {store : Store} {referring : ImportPath} {text : String}
    {d : Definition} (named : scope.Names store referring text d) :
    ∃ e, store.lookup scope.graph referring text = some e := by
  obtain ⟨path, candidate, known⟩ := named
  cases found : store.lookup scope.graph referring text with
  | some e => exact ⟨e, rfl⟩
  | none => cases (get?_eq_none_of_lookup found candidate).symm.trans known

/-- A member all of whose references are stored gets its targets at once. -/
theorem targetMember_of_stored {state : Definer} (resting : state.Resting) (bound : Nat)
    {referring : ImportPath} {m : Member}
    (stored : ∀ text ∈ m.unresolved, ∃ d, scope.Names state.store referring text d) :
    ∃ m', scope.targetMember (scope.defineAll bound) referring m state = (.ok m', state) := by
  induction m with
  | scalar info text target =>
      rw [targetMember]
      split
      · exact ⟨_, rfl⟩
      · rename_i needs
        obtain ⟨_, named⟩ := stored text (by rw [Member.unresolved, if_neg needs]; simp)
        obtain ⟨d, found⟩ := exists_lookup_of_names named
        obtain ⟨path, _, known⟩ := names_of_lookup found
        have visited : d.canonical ∈ state.defined := by
          rw [Store.canonical_of_get? known]
          exact resting.reached _ d known
        rw [Stepping.bind_ok (find_of_lookup found)]
        exact ⟨_, Stepping.bind_ok (defineAll_of_visited visited)⟩
  | collection info element ih =>
      obtain ⟨element', done⟩ := ih stored
      exact ⟨_, Stepping.bind_ok done⟩
  | mapping info key value ihKey ihValue =>
      obtain ⟨key', doneKey⟩ := ihKey fun text open_ => stored text (List.mem_append_left _ open_)
      obtain ⟨value', doneValue⟩ := ihValue fun text open_ =>
        stored text (List.mem_append_right _ open_)
      exact ⟨_, (Stepping.bind_ok doneKey).trans (Stepping.bind_ok doneValue)⟩

/-- A member without open references keeps its targets, and nothing is asked for. -/
theorem targetMember_of_closed (scope : Scope) (visit : String → Defining Unit)
    (referring : ImportPath) (state : Definer) {m : Member} (closed : m.unresolved = []) :
    scope.targetMember visit referring m state = (.ok m, state) := by
  induction m with
  | scalar info text target =>
      rw [Member.unresolved] at closed
      split at closed
      · rename_i settled
        rw [targetMember, if_pos settled]
        rfl
      · cases closed
  | collection info element ih => exact Stepping.bind_ok (ih closed)
  | mapping info key value ihKey ihValue =>
      obtain ⟨closedKey, closedValue⟩ := List.append_eq_nil_iff.mp closed
      exact (Stepping.bind_ok (ihKey closedKey)).trans (Stepping.bind_ok (ihValue closedValue))

theorem targetMembers_of_closed (scope : Scope) (visit : String → Defining Unit)
    (path : ImportPath) (state : Definer) {members : Table Member}
    (closed : ∀ entry ∈ members, entry.2.unresolved = []) :
    scope.targetMembers visit path members state = (.ok members, state) := by
  induction members with
  | nil => rfl
  | cons entry members ih =>
      have first := targetMember_of_closed scope visit (referringUnit path entry.2) state
        (closed entry List.mem_cons_self)
      have rest := ih fun other later => closed other (List.mem_cons_of_mem _ later)
      exact (Stepping.bind_ok first).trans (Stepping.bind_ok rest)

/-- Nothing is left to do for a finished definition. -/
theorem exists_complete_of_finished (visit : String → Defining Unit) {d : Definition}
    (finished : d.Finished) (state : Definer) :
    ∃ left, scope.complete visit d state = (.ok (), left) := by
  have flat : scope.flattenWith visit d state = (.ok { d with embedded := [] }, state) := by
    rw [flattenWith, finished.merged]
    rfl
  have targeted := targetMembers_of_closed scope visit d.importPath state finished.targeted
  exact ⟨_, (Stepping.bind_ok flat).trans (Stepping.bind_ok targeted)⟩

/-- A visit that fails leaves the definition as it is, and there is something left to do for it. -/
theorem defineAll_unfinished {bound : Nat} {d : Definition} {state : Definer}
    (known : state.store.get? d.canonical = some d) :
    Ends (scope.defineAll (bound + 1) d.canonical state)
      (fun _ left => Ran scope state left)
      fun _ left => Ran scope state left ∧ left.store.get? d.canonical = some d ∧
        ¬ d.Finished := by
  refine Ends.of_cases (fun _ left ran => ?_) fun failure left ran => ?_
  · exact ((defineAll_leads (bound + 1) d.canonical state).ok ran).1
  · have whole : Ran scope state left :=
      (defineAll_leads (bound + 1) d.canonical state).error ran
    rw [defineAll, Stepping.get_bind] at ran
    split at ran
    · cases ran
    · rename_i notContained
      have fresh : d.canonical ∉ state.defined := fun visited =>
        notContained (List.contains_iff_mem.mpr visited)
      rw [known] at ran
      change scope.complete (scope.defineAll bound) d
        ((Act.visit d.canonical).apply scope state) = (.error failure, left) at ran
      have rest := (complete_ends (defineAll_leads bound) d
        ((Act.visit d.canonical).apply scope state) List.mem_cons_self known).error ran
      refine ⟨whole, rest.fixed _ List.mem_cons_self d known, fun finished => ?_⟩
      obtain ⟨_, succeeds⟩ := exists_complete_of_finished (scope.defineAll bound) finished
        ((Act.visit d.canonical).apply scope state)
      cases succeeds.symm.trans ran

/-- The reference is not stored, it does not resolve, and looking it up gives the answer again. -/
def Repeats (scope : Scope) (referring : ImportPath) (text : String) (left : Definer)
    (answer : Except Failure (Option Definition)) : Prop :=
  left.store.lookup scope.graph referring text = none ∧
    (scope.loader.Unchanging → scope.resolved? referring text = none ∧
      ∃ later, scope.find referring text left = (answer, later))

theorem find_repeats (state : Definer) (referring : ImportPath) (text : String) :
    Ends (scope.find referring text state)
      (fun found left => match found with
        | some d => scope.Names left.store referring text d ∧
            left.store.get? d.canonical = some d
        | none => scope.Repeats referring text left (.ok none))
      fun failure left => scope.Repeats referring text left (.error failure) := by
  cases found : state.store.lookup scope.graph referring text with
  | some d =>
      rw [find_of_lookup found]
      obtain ⟨path, candidate, known⟩ := names_of_lookup found
      exact ⟨⟨path, candidate, known⟩, Store.get?_canonical known⟩
  | none =>
      cases ran : scope.resolve referring text state.journal with
      | mk answer journal =>
          rw [find_of_missed found ran]
          have again : scope.loader.Unchanging → ∃ later,
              scope.resolve referring text journal = (answer, later) := by
            intro unchanging
            have first := resolve_fst unchanging referring text state.journal
            have second := resolve_fst unchanging referring text journal
            rw [ran] at first
            exact ⟨(scope.resolve referring text journal).2,
              Prod.ext (second.trans first.symm) rfl⟩
          have repeats : (∀ d, answer ≠ .ok (some d)) →
              scope.Repeats referring text { state with journal } answer := by
            refine fun unfound => ⟨found, fun unchanging => ⟨?_, ?_⟩⟩
            · refine Option.eq_none_iff_forall_ne_some.mpr fun d resolves => ?_
              have given := resolve_of_resolved? unchanging resolves state.journal
              rw [ran] at given
              exact unfound d given
            · obtain ⟨later, same⟩ := again unchanging
              exact ⟨_, @find_of_missed scope { state with journal } referring text found answer
                later same⟩
          rcases answer with failure | _ | d
          · exact repeats nofun
          · exact repeats nofun
          · obtain ⟨path, candidate, offers⟩ :=
              (scope.resolve_offers referring text state.journal).ok ran d rfl
            have known := Store.get?_add_self state.store d
            exact ⟨⟨path, candidate, offers.canonical_eq ▸ known⟩, known⟩

/-- What names a definition still names one after further runs. -/
theorem exists_names_of_ran {state left : Definer} (ran : Ran scope state left)
    {referring : ImportPath} {text : String} {d : Definition}
    (named : scope.Names state.store referring text d) :
    ∃ d', scope.Names left.store referring text d' := by
  obtain ⟨acts, course⟩ := ran.course
  obtain ⟨path, candidate, known⟩ := named
  obtain ⟨d', known', _⟩ := course.evolves _ d known
  exact ⟨d', path, candidate, known'⟩

/-- Why targets could not be set: a reference names an unfinished definition, or it is not stored
and the failure is there to stay. -/
def Blocked (scope : Scope) (referring : ImportPath) (m : Member) (failure : Failure)
    (left : Definer) : Prop :=
  (∃ text ∈ m.unresolved, ∃ d, scope.Names left.store referring text d ∧ ¬ d.Finished) ∨
    (∃ text ∈ m.unresolved, left.store.lookup scope.graph referring text = none ∧
      (scope.loader.Unchanging → scope.resolved? referring text = none)) ∧
    (scope.loader.Unchanging → left.Resting → ∀ bound, ∃ later,
      scope.targetMember (scope.defineAll bound) referring m left = (.error failure, later))

/-- A reference that finds the same again stops its member with the same failure again. -/
theorem Repeats.blocked {info : MemberInfo} {text : String} {target : Option TargetUnit}
    {referring : ImportPath} {left : Definer} {answer : Except Failure (Option Definition)}
    {failure : Failure} (repeats : scope.Repeats referring text left answer)
    (open_ : (Member.scalar info text target).unresolved = [text])
    (fails : ∀ bound later, scope.find referring text left = (answer, later) →
      scope.targetMember (scope.defineAll bound) referring (.scalar info text target) left =
        (.error failure, later)) :
    scope.Blocked referring (.scalar info text target) failure left := by
  rw [Blocked, open_]
  refine Or.inr ⟨⟨text, List.mem_singleton_self _, repeats.1, fun unchanging =>
    (repeats.2 unchanging).1⟩, fun unchanging _ bound => ?_⟩
  obtain ⟨_, later, same⟩ := repeats.2 unchanging
  exact ⟨later, fails bound later same⟩

/-- Targets are set and all references are stored, or setting them is blocked. -/
theorem targetMember_blocked (scope : Scope) (bound : Nat) (referring : ImportPath) (m : Member)
    (state : Definer) :
    Ends (scope.targetMember (scope.defineAll (bound + 1)) referring m state)
      (fun _ left => Ran scope state left ∧
        ∀ text ∈ m.unresolved, ∃ d, scope.Names left.store referring text d)
      fun failure left => Ran scope state left ∧ scope.Blocked referring m failure left := by
  induction m generalizing state with
  | scalar info text target =>
      rw [targetMember]
      split
      · rename_i settled
        refine Ends.pure ⟨.refl state, fun other open_ => ?_⟩
        rw [Member.unresolved, if_pos settled] at open_
        cases open_
      · rename_i needs
        have open_ : (Member.scalar info text target).unresolved = [text] := by
          rw [Member.unresolved, if_neg needs]
        refine Ends.bind (Ends.of_cases (fun found left ran => ?_) fun failure left ran => ?_)
        · have moved := ((find_leads state referring text).ok ran).1
          have holds := (find_repeats state referring text).ok ran
          cases found with
          | none =>
              refine Ends.throw ⟨moved, holds.blocked open_ fun bound later same => ?_⟩
              rw [targetMember, if_neg needs]
              exact Stepping.bind_ok same
          | some d =>
              obtain ⟨named, known⟩ := holds
              refine Ends.bind ((defineAll_unfinished known).mono
                (fun _ later rest => Ends.pure ⟨moved.trans rest, fun other among => ?_⟩) ?_)
              · rw [open_] at among
                cases List.mem_singleton.mp among
                exact exists_names_of_ran rest named
              · rintro failure later ⟨rest, still, unfinished⟩
                obtain ⟨path, candidate, knownPath⟩ := named
                have same := Store.canonical_of_get? knownPath
                refine ⟨moved.trans rest, Or.inl ⟨text, ?_, d, ⟨path, candidate, ?_⟩, unfinished⟩⟩
                · rw [open_]
                  exact List.mem_singleton_self _
                · rw [← same]
                  exact still
        · have moved : Ran scope state left := (find_leads state referring text).error ran
          have repeats := (find_repeats state referring text).error ran
          refine ⟨moved, repeats.blocked open_ fun bound later same => ?_⟩
          rw [targetMember, if_neg needs]
          exact Stepping.bind_error same
  | collection info element ih =>
      refine Ends.bind ((ih state).mono (fun _ _ good => Ends.pure good) ?_)
      rintro failure left ⟨ran, unfinished | ⟨missing, fails⟩⟩
      · exact ⟨ran, Or.inl unfinished⟩
      · refine ⟨ran, Or.inr ⟨missing, fun unchanging resting bound => ?_⟩⟩
        obtain ⟨later, same⟩ := fails unchanging resting bound
        exact ⟨later, Stepping.bind_error same⟩
  | mapping info key value ihKey ihValue =>
      refine Ends.bind ((ihKey state).mono ?_ ?_)
      · rintro _ middle ⟨ran, stored⟩
        refine Ends.bind ((ihValue middle).mono ?_ ?_)
        · rintro _ left ⟨rest, storedValue⟩
          refine Ends.pure ⟨ran.trans rest, fun text open_ => ?_⟩
          rcases List.mem_append.mp open_ with inKey | inValue
          · obtain ⟨_, named⟩ := stored text inKey
            exact exists_names_of_ran rest named
          · exact storedValue text inValue
        · rintro failure left ⟨rest, ⟨text, open_, unfinished⟩ | ⟨⟨text, open_, missing⟩, fails⟩⟩
          · exact ⟨ran.trans rest, Or.inl ⟨text, List.mem_append_right _ open_, unfinished⟩⟩
          · refine ⟨ran.trans rest, Or.inr ⟨⟨text, List.mem_append_right _ open_, missing⟩,
              fun unchanging resting bound => ?_⟩⟩
            -- The references of the key are stored by now, so the repeated call gets to the value.
            have storedKey : ∀ text ∈ key.unresolved,
                ∃ d, scope.Names left.store referring text d := by
              intro text inKey
              obtain ⟨_, named⟩ := stored text inKey
              exact exists_names_of_ran rest named
            obtain ⟨key', done⟩ := targetMember_of_stored resting bound storedKey
            obtain ⟨later, same⟩ := fails unchanging resting bound
            exact ⟨later, (Stepping.bind_ok done).trans (Stepping.bind_error same)⟩
      · rintro failure left ⟨ran, ⟨text, open_, unfinished⟩ | ⟨⟨text, open_, missing⟩, fails⟩⟩
        · exact ⟨ran, Or.inl ⟨text, List.mem_append_left _ open_, unfinished⟩⟩
        · refine ⟨ran, Or.inr ⟨⟨text, List.mem_append_left _ open_, missing⟩,
            fun unchanging resting bound => ?_⟩⟩
          obtain ⟨later, same⟩ := fails unchanging resting bound
          exact ⟨later, Stepping.bind_error same⟩

end Scope

end Calls

/-! ## Rows of calls -/

/-- The state after calls in a row, whatever they return. -/
def Call.afterAll (scope : Scope) (calls : List Call) (state : Definer) : Definer :=
  calls.foldl (Call.after scope) state

/-- A call of the row is the first to visit the name, and fails or has nothing stored under it. -/
def Call.Abandoned (scope : Scope) (calls : List Call) (state : Definer) (name : String) : Prop :=
  ∃ before call after, calls = before ++ call :: after ∧
    name ∉ (Call.afterAll scope before state).defined ∧
    name ∈ (call.after scope (Call.afterAll scope before state)).defined ∧
    (call.Fails scope (Call.afterAll scope before state) ∨
      call = .name name ∧ (Call.afterAll scope before state).store.get? name = none)

section Rows

variable {scope : Scope} {state : Definer} (resting : state.Resting)

include resting

/-- After calls nothing is under way, whether they failed or not. -/
theorem Call.resting_afterAll (scope : Scope) (calls : List Call) :
    (Call.afterAll scope calls state).Resting := by
  induction calls generalizing state with
  | nil => exact resting
  | cons call calls ih => exact ih (call.rests scope resting).1

/-- Nothing that is stored between calls ever changes. -/
theorem Call.get?_afterAll (calls : List Call) {name : String} {d : Definition}
    (known : state.store.get? name = some d) :
    (Call.afterAll scope calls state).store.get? name = some d := by
  induction calls generalizing state with
  | nil => exact known
  | cons call calls ih =>
      have ran := call.ran scope state
      exact ih (call.rests scope resting).1
        (ran.fixed name (resting.reached name d known) d known)

/-- What was visited by calls is finished, unless it was visited before them or is abandoned. -/
theorem Call.finished_or_abandoned (calls : List Call) {name : String}
    (visited : name ∈ (Call.afterAll scope calls state).defined) :
    name ∈ state.defined ∨
      (∃ d, (Call.afterAll scope calls state).store.get? name = some d ∧ d.Finished) ∨
      Call.Abandoned scope calls state name := by
  induction calls generalizing state with
  | nil => exact Or.inl visited
  | cons call calls ih =>
      obtain ⟨restingNext, finishes⟩ := call.rests scope resting
      rcases ih restingNext visited with
        visitedNext | finished | ⟨before, other, after, rfl, leaves⟩
      · by_cases earlier : name ∈ state.defined
        · exact Or.inl earlier
        · refine Or.inr ?_
          rcases finishes with fails | finishes
          · exact Or.inr ⟨[], call, calls, rfl, earlier, visitedNext, Or.inl fails⟩
          · rcases finishes name visitedNext with (again | unstored) | ⟨d, known, finished⟩
            · exact absurd again earlier
            · exact Or.inr ⟨[], call, calls, rfl, earlier, visitedNext, Or.inr unstored⟩
            · exact Or.inl ⟨d, Call.get?_afterAll restingNext calls known, finished⟩
      · exact Or.inr (Or.inl finished)
      · exact Or.inr (Or.inr ⟨call :: before, other, after, rfl, leaves⟩)

end Rows

theorem Definer.resting_empty (journal : Journal) : Definer.Resting { journal } :=
  ⟨nofun, nofun⟩

/-- A stored definition is finished unless a failed call abandoned it. -/
theorem Call.finished_or_abandoned_of_stored {scope : Scope} {calls : List Call} {journal : Journal}
    {name : String} {d : Definition}
    (known : (Call.afterAll scope calls { journal }).store.get? name = some d) :
    d.Finished ∨ Call.Abandoned scope calls { journal } name := by
  have empty := Definer.resting_empty journal
  have visited := (Call.resting_afterAll empty scope calls).reached name d known
  refine ((Call.finished_or_abandoned empty calls visited).resolve_left nofun).imp_left ?_
  rintro ⟨e, stored, finished⟩
  cases stored.symm.trans known
  exact finished

/-- A call that does not fail leaves nothing unfinished but what was abandoned before. -/
theorem Call.finished_or_abandoned_before {scope : Scope} {calls : List Call} {journal : Journal}
    {referring : ImportPath} {m m' : Member} {left : Definer}
    (ran : Definer.defineMember scope referring m (Call.afterAll scope calls { journal }) =
      (.ok m', left)) {name : String} {d : Definition} (known : left.store.get? name = some d) :
    d.Finished ∨ Call.Abandoned scope calls { journal } name := by
  have empty := Definer.resting_empty journal
  have resting := Call.resting_afterAll empty scope calls
  have after : (Call.member referring m).after scope (Call.afterAll scope calls { journal }) =
      left := congrArg Prod.snd ran
  obtain ⟨restingLeft, finishes⟩ := (Call.member referring m).rests scope resting
  rw [after] at restingLeft finishes
  have succeeds : ¬ (Call.member referring m).Fails scope
      (Call.afterAll scope calls { journal }) := by
    rintro ⟨failure, fails⟩
    rw [ran] at fails
    cases fails
  rcases finishes.resolve_left succeeds name (restingLeft.reached name d known) with
    (visited | ⟨other, _⟩) | ⟨e, stored, finished⟩
  · refine ((Call.finished_or_abandoned empty calls visited).resolve_left nofun).imp_left ?_
    rintro ⟨e, stored, finished⟩
    have still : left.store.get? name = some e :=
      after ▸ Call.get?_afterAll resting [.member referring m] stored
    cases still.symm.trans known
    exact finished
  · cases other
  · cases stored.symm.trans known
    exact Or.inl finished

/-- After calls of any kind, whatever they returned, all that is stored has targets that are stored,
stays as it is for good, and is finished unless it is abandoned. A further call that succeeds gives
each reference of its member the target of a stored definition, and leaves nothing unfinished but
what earlier calls abandoned. If it fails, a reference of the member names an unfinished definition;
or one is not stored and, if the answers of the loader do not change, does not resolve either, and
then the call fails in the same way when it is repeated. A call all of whose references are stored,
finished or not, succeeds and changes nothing. -/
theorem defineMember_finishes_unless_abandoned (scope : Scope) (calls : List Call)
    (journal : Journal) (referring : ImportPath) (m : Member) :
    (∀ name d, (Call.afterAll scope calls { journal }).store.get? name = some d →
      d.Points (Call.afterAll scope calls { journal }) ∧
      (d.Finished ∨ Call.Abandoned scope calls { journal } name) ∧
      ∀ more, (Call.afterAll scope more (Call.afterAll scope calls { journal })).store.get? name =
        some d) ∧
    Ends (Definer.defineMember scope referring m (Call.afterAll scope calls { journal }))
      (fun m' left => scope.Targets left referring m m' ∧ m'.unresolved = [] ∧
        ∀ name d, left.store.get? name = some d →
          d.Finished ∨ Call.Abandoned scope calls { journal } name)
      (fun failure left =>
        (∃ text ∈ m.unresolved, ∃ d, scope.Names left.store referring text d ∧ ¬ d.Finished) ∨
        (∃ text ∈ m.unresolved, left.store.lookup scope.graph referring text = none ∧
          (scope.loader.Unchanging → scope.resolved? referring text = none)) ∧
        (scope.loader.Unchanging →
          ∃ later, Definer.defineMember scope referring m left = (.error failure, later))) ∧
    ((∀ text ∈ m.unresolved,
        ∃ d, scope.Names (Call.afterAll scope calls { journal }).store referring text d) →
      ∃ m', Definer.defineMember scope referring m (Call.afterAll scope calls { journal }) =
        (.ok m', Call.afterAll scope calls { journal })) := by
  have empty := Definer.resting_empty journal
  have resting := Call.resting_afterAll empty scope calls
  refine ⟨fun name d known => ?_, ?_, fun stored => ?_⟩
  · exact ⟨resting.points name d known, Call.finished_or_abandoned_of_stored known,
      fun more => Call.get?_afterAll resting more known⟩
  · have follows := @Definer.defineMember_follows scope anyReference referring m
      (Call.afterAll scope calls { journal }) fun _ _ => trivial
    have blocked := Scope.targetMember_blocked scope
      (Definer.allNames scope (Call.afterAll scope calls { journal })).length referring m
      (Call.afterAll scope calls { journal })
    refine Ends.of_cases (fun m' left ran => ?_) fun failure left ran => ?_
    · have targeted := (follows.ok ran).2
      exact ⟨targeted, targeted.unresolved_eq_nil, fun name d known =>
        Call.finished_or_abandoned_before ran known⟩
    · have after : (Call.member referring m).after scope (Call.afterAll scope calls { journal }) =
          left := congrArg Prod.snd ran
      have restingLeft := ((Call.member referring m).rests scope resting).1
      rw [after] at restingLeft
      rw [Definer.defineMember, Stepping.get_bind] at ran
      refine (blocked.error ran).2.imp_right ?_
      rintro ⟨missing, fails⟩
      refine ⟨missing, fun unchanging => ?_⟩
      obtain ⟨later, same⟩ := fails unchanging restingLeft (Definer.depth scope left)
      exact ⟨later, (Stepping.get_bind _ left).trans same⟩
  · obtain ⟨m', done⟩ := Scope.targetMember_of_stored resting
      (Definer.depth scope (Call.afterAll scope calls { journal })) stored
    exact ⟨m', (Stepping.get_bind _ _).trans done⟩

instance (d : Definition) : Decidable d.Finished :=
  decidable_of_iff (d.embedded = [] ∧ ∀ entry ∈ d.members, entry.2.unresolved = [])
    ⟨fun both => ⟨both.1, both.2⟩, fun finished => ⟨finished.merged, finished.targeted⟩⟩

/-- A type with a reference to nothing, and one that refers to itself. -/
def danglingScope : Scope where
  graph := ⟨[("app", { importPath := "app", name := "app", imports := [] })]⟩
  loader := .fixed [("app", [{
    name := "app"
    types := [
      { name := "A", fields := [{ name := "x", typeText := "Missing" }] },
      { name := "B", fields := [{ name := "y", typeText := "B" }] }] }])]

/-- The first call fails, the same call then succeeds, and its target is stored without a target of
its own. A name that is asked for too early is never finished either. -/
theorem defineMember_succeeds_unfinished :
    (∃ left d, Definer.defineMember danglingScope "app" (.scalar {} "A" none) {} =
        (.error (.unresolvedType "Missing" "x" "app"), left) ∧
      Definer.defineMember danglingScope "app" (.scalar {} "A" none) left =
        (.ok (.scalar {} "A" (some d.target)), left) ∧
      left.store.get? "app.A" = some d ∧ ¬ d.Finished) ∧
    ∃ early left d, Definer.define danglingScope "app.B" {} = (.ok (), early) ∧
      Definer.defineMember danglingScope "app" (.scalar {} "B" none) early =
        (.ok (.scalar {} "B" (some d.target)), left) ∧
      left.store.get? "app.B" = some d ∧ ¬ d.Finished := by
  have stored : ∀ {store : Store} {name : String},
      (store.get? name).map (fun d => (d.target, decide d.Finished)) =
        some (⟨"app", "app"⟩, false) →
      ∃ d, d.target = ⟨"app", "app"⟩ ∧ store.get? name = some d ∧ ¬ d.Finished := by
    intro store name given
    obtain ⟨d, known, both⟩ := Option.map_eq_some_iff.mp given
    obtain ⟨target, unfinished⟩ := Prod.mk.inj both
    exact ⟨d, target, known, of_decide_eq_false unfinished⟩
  refine ⟨⟨(Definer.defineMember danglingScope "app" (.scalar {} "A" none) {}).2, ?_⟩,
    (Definer.define danglingScope "app.B" {}).2,
    (Definer.defineMember danglingScope "app" (.scalar {} "B" none)
      (Definer.define danglingScope "app.B" {}).2).2, ?_⟩
  · obtain ⟨d, target, known, unfinished⟩ := @stored
      (Definer.defineMember danglingScope "app" (.scalar {} "A" none) {}).2.store "app.A"
      (by decide +kernel)
    refine ⟨d, Prod.ext (by decide +kernel) rfl, ?_, known, unfinished⟩
    rw [target]
    exact Prod.ext (by decide +kernel) (by decide +kernel)
  · obtain ⟨d, target, known, unfinished⟩ := @stored
      (Definer.defineMember danglingScope "app" (.scalar {} "B" none)
        (Definer.define danglingScope "app.B" {}).2).2.store "app.B"
      (by decide +kernel)
    refine ⟨d, Prod.ext (by decide +kernel) rfl, ?_, known, unfinished⟩
    rw [target]
    exact Prod.ext (by decide +kernel) rfl

end ApiDocs
