import ApiDocs.Proofs.Definer.Failures
import ApiDocs.Proofs.Definer.Run
import ApiDocs.Proofs.Growth
import Mathlib.Data.List.Dedup
import Mathlib.Data.List.Perm.Subperm

/-!
# Definitions end

`Scope.defineAll` is written with a bound on its nesting, which ends the recursion whatever the
types are. Here the bound turns out not to matter. A visit that finds work to do marks a name of
which there are only so many: those that the units of the graph declare, and those that are stored
already (`Definer.allNamed`). Once all of them are marked, visits have nothing left to do. So work
is never nested deeper than there are such names, what would be done beyond that is of no
consequence, and the definer satisfies its recursion without any bound, which it therefore never
fails for (`definer_ends`).
-/

namespace ApiDocs

/-- Two steps in a row end the same if their parts do, where the second is taken. -/
theorem Stepping.bind_congr {σ α β : Type} {first first' : Stepping σ α}
    {next next' : α → Stepping σ β} {state : σ} (same : first' state = first state)
    (further : ∀ result left, first state = (.ok result, left) →
      next' result left = next result left) :
    (first' >>= next') state = (first >>= next) state := by
  cases ran : first state with
  | mk result left =>
      cases result with
      | error failure => rw [bind_error (same.trans ran), bind_error ran]
      | ok result =>
          rw [bind_ok (same.trans ran), bind_ok ran]
          exact further result left ran

/-! ## Levels of work -/

/-- What is done when a name is met: a visited name is passed over, one under which nothing is
stored is marked and reported, and only what is left is work. -/
def Definer.meet (work : String → Definition → Defining Unit) (name : String) :
    Defining Unit := do
  let state ← get
  if state.defined.contains name then pure ()
  else
    match state.store.get? name with
    | none =>
      set { state with defined := name :: state.defined }
      Defining.reading (Reading.report [.definitionNotStored name])
    | some d => work name d

namespace Scope

/-- The work on a stored definition, where `visit` is called for all that it refers to. -/
def work (scope : Scope) (visit : String → Defining Unit) (name : String) (d : Definition) :
    Defining Unit := do
  modify fun state => { state with defined := name :: state.defined }
  scope.complete visit d

/-- Visits that work on definitions at most `levels` deep; in place of deeper work, they do what
`beyond` says. -/
def workUpTo (scope : Scope) (beyond : String → Definition → Defining Unit) :
    (levels : Nat) → String → Defining Unit
  | 0 => Definer.meet beyond
  | levels + 1 => Definer.meet (scope.work (scope.workUpTo beyond levels))

end Scope

/-- Names are met with the same outcome if the same is done where there is work. -/
theorem Definer.meet_congr {work work' : String → Definition → Defining Unit} {name : String}
    {state : Definer}
    (same : name ∉ state.defined → ∀ d, state.store.get? name = some d →
      work' name d state = work name d state) : meet work' name state = meet work name state := by
  rw [meet, meet, Stepping.get_bind, Stepping.get_bind]
  split
  · rfl
  · rename_i notContained
    cases known : state.store.get? name with
    | none => rfl
    | some d => exact same (fun visited => notContained (List.contains_iff_mem.mpr visited)) d known

/-- One level of `Scope.defineAll` is a level of work. -/
theorem Scope.defineAll_succ (scope : Scope) (bound : Nat) :
    scope.defineAll (bound + 1) = Definer.meet (scope.work (scope.defineAll bound)) := by
  funext name state
  rw [defineAll, Definer.meet, Stepping.get_bind, Stepping.get_bind]
  split
  · rfl
  · cases state.store.get? name with
    | none => rfl
    | some d => rfl

/-! ## Room for work -/

/-- Everything that can be resolved has a name of the supply. -/
def Scope.Supplied (scope : Scope) (supply : List String) : Prop :=
  ∀ path name d, scope.Offers path name d → d.canonical ∈ supply

/-- Nothing is stored but under names of the supply, of which at most `levels` are not visited. -/
structure Definer.Room (supply : List String) (levels : Nat) (state : Definer) : Prop where
  stored : ∀ name d, state.store.get? name = some d → name ∈ supply
  unvisited : state.unvisited supply ≤ levels

theorem Ran.grows {scope : Scope} {state left : Definer} (ran : Ran scope state left) :
    state.Grows left := by
  obtain ⟨acts, course⟩ := ran.course
  refine ⟨ran.defined, fun name d known => ?_⟩
  obtain ⟨d', known', becomes⟩ := course.evolves name d known
  exact ⟨d', known', becomes.core⟩

/-- Whatever is stored in a course has a name of the supply. -/
theorem Course.stored {scope : Scope} {supply : List String} (supplied : scope.Supplied supply)
    {state left : Definer} {acts : List (Definer × Act)} (course : Course scope state acts left)
    (within : ∀ name d, state.store.get? name = some d → name ∈ supply) :
    ∀ name d, left.store.get? name = some d → name ∈ supply := by
  induction course with
  | done state => exact within
  | @act state left acts act allowed rest ih =>
      apply ih
      have added : ∀ d : Definition, d.canonical ∈ supply →
          ∀ name e, (state.store.add d).get? name = some e → name ∈ supply := by
        intro d named name e known
        rw [Store.get?_add] at known
        split at known
        · rename_i same
          exact same ▸ named
        · exact within name e known
      cases act with
      | find referring text =>
          rcases Act.find_cases scope state referring text with ⟨_, same, _⟩ | ⟨_, journal, cases⟩
          · rw [same]
            exact within
          · rcases cases with ⟨d, resolves, made, _⟩ | ⟨made, _⟩
            · obtain ⟨path, _, offers⟩ := (scope.resolve_offers referring text _).ok resolves d rfl
              rw [made]
              exact added d (supplied path _ d offers)
            · rw [made]
              exact within
      | visit name => exact within
      | note notices => exact within
      | write d =>
          obtain ⟨stored, known, _⟩ := allowed
          exact added d (within _ stored known)

namespace Definer.Room

variable {scope : Scope} {supply : List String} {levels : Nat} {state left : Definer}

/-- Running on takes no room. -/
theorem ran (room : Room supply levels state) (supplied : scope.Supplied supply)
    (ran : Ran scope state left) : Room supply levels left := by
  obtain ⟨acts, course⟩ := ran.course
  exact ⟨course.stored supplied room.stored,
    Nat.le_trans (ran.grows.unvisited_le supply) room.unvisited⟩

/-- The work on a definition has less room for what it refers to. -/
theorem visit {name : String} {d : Definition} (room : Room supply (levels + 1) state)
    (fresh : name ∉ state.defined) (known : state.store.get? name = some d) :
    Room supply levels { state with defined := name :: state.defined } := by
  have fewer := unvisited_visit (room.stored name d known) fresh
  have atMost := room.unvisited
  exact ⟨room.stored, by omega⟩

/-- Without room all that is stored is visited. -/
theorem visited {name : String} {d : Definition} (room : Room supply 0 state)
    (known : state.store.get? name = some d) : name ∈ state.defined := by
  by_contra fresh
  have fewer := unvisited_visit (room.stored name d known) fresh
  have atMost := room.unvisited
  omega

end Definer.Room

/-! ## Visits that agree -/

/-- Two visits do the same wherever there is room for `levels`. -/
def SameVisits (supply : List String) (levels : Nat) (visit visit' : String → Defining Unit) :
    Prop :=
  ∀ name state, Definer.Room supply levels state → visit' name state = visit name state

namespace Scope

variable {scope : Scope} {supply : List String}

section Congruence

variable {levels : Nat} {visit visit' : String → Defining Unit}
  (supplied : scope.Supplied supply)
  (visits : ∀ name state, Leads scope state (visit name state) fun _ => True)
  (same : SameVisits supply levels visit visit')

include supplied visits same

theorem targetMember_congr (referring : ImportPath) (m : Member) {state : Definer}
    (room : state.Room supply levels) :
    scope.targetMember visit' referring m state = scope.targetMember visit referring m state := by
  induction m generalizing state with
  | scalar info text target =>
      rw [targetMember, targetMember]
      split
      · rfl
      · refine Stepping.bind_congr rfl fun found left ran => ?_
        have later := room.ran supplied ((find_leads state referring text).ok ran).1
        cases found with
        | none => rfl
        | some d => exact Stepping.bind_congr (same _ left later) fun _ _ _ => rfl
  | collection info element ih => exact Stepping.bind_congr (ih room) fun _ _ _ => rfl
  | mapping info key value ihKey ihValue =>
      refine Stepping.bind_congr (ihKey room) fun key' left ran => ?_
      have leads := targetMember_leads visits referring key state
      exact Stepping.bind_congr (ihValue (room.ran supplied (leads.ok ran).1)) fun _ _ _ => rfl

theorem targetMembers_congr (path : ImportPath) (members : Table Member) {state : Definer}
    (room : state.Room supply levels) :
    scope.targetMembers visit' path members state =
      scope.targetMembers visit path members state := by
  induction members generalizing state with
  | nil => rfl
  | cons entry members ih =>
      refine Stepping.bind_congr
        (targetMember_congr supplied visits same _ entry.2 room) fun member left ran => ?_
      have leads := targetMember_leads visits (referringUnit path entry.2) entry.2 state
      exact Stepping.bind_congr (ih (room.ran supplied (leads.ok ran).1)) fun _ _ _ => rfl

omit visits in
theorem mergeEmbedded_congr (host : Definition) (text : String) {state : Definer}
    (room : state.Room supply levels) :
    scope.mergeEmbedded visit' host text state = scope.mergeEmbedded visit host text state := by
  rw [mergeEmbedded, mergeEmbedded]
  split
  · rfl
  · refine Stepping.bind_congr rfl fun found left ran => ?_
    have later := room.ran supplied ((find_leads state _ text).ok ran).1
    cases found with
    | none => rfl
    | some d => exact Stepping.bind_congr (same _ left later) fun _ _ _ => rfl

theorem mergeAll_congr (texts : List String) (host : Definition) {state : Definer}
    (room : state.Room supply levels) :
    scope.mergeAll visit' host texts state = scope.mergeAll visit host texts state := by
  induction texts generalizing host state with
  | nil => rfl
  | cons text texts ih =>
      refine Stepping.bind_congr (mergeEmbedded_congr supplied same host text room)
        fun merged left ran => ?_
      have leads := mergeEmbedded_leads visits host text state
      exact ih merged (room.ran supplied (leads.ok ran).1)

theorem flattenWith_congr (d : Definition) {state : Definer} (room : state.Room supply levels) :
    scope.flattenWith visit' d state = scope.flattenWith visit d state :=
  mergeAll_congr supplied visits same d.embedded _ room

theorem complete_congr (d : Definition) {state : Definer} (room : state.Room supply levels) :
    scope.complete visit' d state = scope.complete visit d state := by
  refine Stepping.bind_congr (flattenWith_congr supplied visits same d room)
    fun merged left ran => ?_
  have leads := flattenWith_leads visits d state
  have later := room.ran supplied (leads.ok ran).1
  exact Stepping.bind_congr (targetMembers_congr supplied visits same _ _ later) fun _ _ _ => rfl

/-- Visits that agree where there is room are worked with alike where there is more room by one. -/
theorem meet_work_congr :
    SameVisits supply (levels + 1) (Definer.meet (scope.work visit))
      (Definer.meet (scope.work visit')) := by
  intro name state room
  refine Definer.meet_congr fun fresh d known => ?_
  exact complete_congr supplied visits same d (room.visit fresh known)

end Congruence

/-- Where there is room for a number of levels, what would be done beyond them does not matter. -/
theorem workUpTo_same (supplied : scope.Supplied supply)
    (beyond : String → Definition → Defining Unit) (levels : Nat) {bound : Nat}
    (enough : levels < bound) :
    SameVisits supply levels (scope.defineAll bound) (scope.workUpTo beyond levels) := by
  induction levels generalizing bound with
  | zero =>
      intro name state room
      obtain ⟨bound, rfl⟩ := Nat.exists_eq_succ_of_ne_zero (Nat.ne_of_gt enough)
      rw [Nat.succ_eq_add_one, defineAll_succ]
      exact Definer.meet_congr fun fresh d known => absurd (room.visited known) fresh
  | succ levels ih =>
      obtain ⟨bound, rfl⟩ := Nat.exists_eq_succ_of_ne_zero (Nat.ne_of_gt (Nat.zero_lt_of_lt enough))
      rw [Nat.succ_eq_add_one, defineAll_succ]
      exact meet_work_congr supplied (defineAll_leads bound) (ih (Nat.lt_of_succ_lt_succ enough))

/-- Levels of work fail for the reasons that their steps have, if nothing fails beyond them. -/
theorem workUpTo_fails (levels : Nat) (name : String) :
    FailsWith scope.Fails (scope.workUpTo (fun _ _ => pure ()) levels name) := by
  have meets : ∀ work : String → Definition → Defining Unit,
      (∀ name d, FailsWith scope.Fails (work name d)) → ∀ name,
        FailsWith scope.Fails (Definer.meet work name) := by
    intro work works name
    refine .bind .get fun state => ?_
    split
    · exact .pure _
    · cases state.store.get? name with
      | none => exact .bind (.set _) fun _ => .reading (.report _)
      | some d => exact works name d
  induction levels generalizing name with
  | zero => exact meets _ (fun _ _ => .pure _) name
  | succ levels ih => exact meets _ (fun _ d => .bind (.modify _) fun _ => complete_fails ih d) name

end Scope

/-! ## Names that there are -/

/-- The canonical names of the types that a unit declares, in whichever of its answers. -/
def Scope.declarations (scope : Scope) (path : ImportPath) : List String :=
  (scope.loader.answers path).flatMap fun answer =>
    ((selectGroup answer.groupList).toList.flatMap (·.types)).map fun decl =>
      canonicalName path decl.name

/-- The names that the units of the graph declare and those that are stored, each once. -/
def Definer.allNamed (scope : Scope) (state : Definer) : List String :=
  (scope.graph.paths.flatMap scope.declarations ++ state.store.names).dedup

namespace Definer

variable {scope : Scope} {state : Definer}

theorem supplied_allNamed (scope : Scope) (state : Definer) :
    scope.Supplied (state.allNamed scope) := by
  intro path name d offers
  rw [offers.canonical_eq]
  obtain ⟨present, answer, answered, group, decl, values, selected, declares, _⟩ := offers
  obtain ⟨unit, known⟩ := Option.isSome_iff_exists.mp present
  have named : decl.name = name := by
    have matched := List.find?_some declares
    simpa using matched
  refine List.mem_dedup.mpr (List.mem_append_left _ ?_)
  refine List.mem_flatMap.mpr ⟨path, Table.mem_keys_of_get? known, ?_⟩
  refine List.mem_flatMap.mpr ⟨answer, answered, List.mem_map.mpr ⟨decl, ?_, by rw [named]⟩⟩
  rw [selected]
  exact List.mem_flatMap.mpr ⟨group, List.mem_singleton_self group,
    List.mem_of_find?_eq_some declares⟩

/-- There is room for as many levels as there are names. -/
theorem room_allNamed (scope : Scope) (state : Definer) :
    state.Room (state.allNamed scope) (state.allNamed scope).length := by
  refine ⟨fun name d known => ?_, List.countP_le_length⟩
  exact List.mem_dedup.mpr (List.mem_append_right _ (Table.mem_keys_of_get? known))

theorem length_allNamed_lt_depth (scope : Scope) (state : Definer) :
    (state.allNamed scope).length < depth scope state := by
  refine Nat.lt_succ_of_le (List.Subperm.length_le ((List.nodup_dedup _).subperm ?_))
  intro name among
  refine List.mem_eraseDups.mpr ?_
  rcases List.mem_append.mp (List.mem_dedup.mp among) with declared | stored
  · obtain ⟨path, known, declared⟩ := List.mem_flatMap.mp declared
    obtain ⟨answer, answered, declared⟩ := List.mem_flatMap.mp declared
    obtain ⟨decl, listed, rfl⟩ := List.mem_map.mp declared
    obtain ⟨group, selected, listed⟩ := List.mem_flatMap.mp listed
    have chosen := Scope.mem_of_selectGroup (Option.mem_toList.mp selected)
    refine List.mem_append_left _ (List.mem_flatMap.mpr ⟨path, known, ?_⟩)
    refine List.mem_flatMap.mpr ⟨answer, answered, List.mem_map.mpr ⟨decl.name, ?_, rfl⟩⟩
    exact List.mem_flatMap.mpr ⟨group, chosen, List.mem_map_of_mem listed⟩
  · exact List.mem_append_right _ stored

theorem defineMember_eq (scope : Scope) (state : Definer) (referring : ImportPath) (m : Member) :
    defineMember scope referring m state =
      scope.targetMember (scope.defineAll (depth scope state)) referring m state := by
  rw [defineMember, Stepping.get_bind]

theorem define_eq (scope : Scope) (state : Definer) (name : String) :
    define scope name state = scope.defineAll (depth scope state) name state := by
  rw [define, Stepping.get_bind]

theorem flatten_eq (scope : Scope) (state : Definer) (d : Definition) :
    flatten scope d state = scope.flattenWith (scope.defineAll (depth scope state)) d state := by
  rw [flatten, Stepping.get_bind]

/-- The bound that a definer computes is as good as any other for which there is room. -/
theorem define_same {supply : List String} (supplied : scope.Supplied supply) {levels bound : Nat}
    (enough : levels < bound) :
    SameVisits supply levels (scope.defineAll bound) (define scope) := by
  intro name state room
  have own := length_allNamed_lt_depth scope state
  let idle : String → Definition → Defining Unit := fun _ _ => pure ()
  calc define scope name state
      = scope.defineAll (depth scope state) name state := define_eq scope state name
    _ = scope.workUpTo idle (state.allNamed scope).length name state :=
        (Scope.workUpTo_same (supplied_allNamed scope state) idle _ own name state
          (room_allNamed scope state)).symm
    _ = scope.defineAll (depth scope state + bound) name state :=
        Scope.workUpTo_same (supplied_allNamed scope state) idle _ (by omega) name state
          (room_allNamed scope state)
    _ = scope.workUpTo idle levels name state :=
        (Scope.workUpTo_same supplied idle _ (by omega) name state room).symm
    _ = scope.defineAll bound name state :=
        Scope.workUpTo_same supplied idle _ enough name state room

end Definer

/-- In every state of a definer and for arbitrary types, the three calls end as their recursion says
without any bound: the names that a call meets are defined by a call of their own. Work is never
nested deeper than there are names that the units of the graph declare or that are stored: with so
many levels, the calls end the same whatever would be done beyond them. And what they fail with, if
they fail, are the answers of units and references to types that are not known. -/
theorem definer_ends (scope : Scope) (state : Definer) :
    ((∀ referring m, Definer.defineMember scope referring m state =
        scope.targetMember (Definer.define scope) referring m state) ∧
      (∀ name, Definer.define scope name state =
        Definer.meet (scope.work (Definer.define scope)) name state) ∧
      ∀ d, Definer.flatten scope d state =
        scope.flattenWith (Definer.define scope) d state) ∧
    (∀ beyond : String → Definition → Defining Unit,
      let visit := scope.workUpTo beyond (state.allNamed scope).length
      (∀ referring m, Definer.defineMember scope referring m state =
        scope.targetMember visit referring m state) ∧
      (∀ name, Definer.define scope name state = visit name state) ∧
      ∀ d, Definer.flatten scope d state = scope.flattenWith visit d state) ∧
    ∀ failure,
      (∀ referring m, (Definer.defineMember scope referring m state).1 = .error failure →
        scope.Fails failure) ∧
      (∀ name, (Definer.define scope name state).1 = .error failure → scope.Fails failure) ∧
      ∀ d, (Definer.flatten scope d state).1 = .error failure → scope.Fails failure := by
  have supplied := Definer.supplied_allNamed scope state
  have room := Definer.room_allNamed scope state
  have enough := Definer.length_allNamed_lt_depth scope state
  have visits := @Scope.defineAll_leads scope (Definer.depth scope state)
  have own := Definer.define_same supplied enough
  have cut := fun beyond => Scope.workUpTo_same supplied beyond _ enough
  refine ⟨⟨fun referring m => ?_, fun name => ?_, fun d => ?_⟩, ?_⟩
  · rw [Definer.defineMember_eq, Scope.targetMember_congr supplied visits own referring m room]
  · -- one more level than needed, so that one of them can be taken off
    have more : state.Room (state.allNamed scope) ((state.allNamed scope).length + 1) :=
      ⟨room.stored, Nat.le_succ_of_le room.unvisited⟩
    rw [Definer.define_same supplied (Nat.lt_succ_of_lt enough) name state room,
      Nat.succ_eq_add_one, Scope.defineAll_succ,
      Scope.meet_work_congr supplied visits own name state more]
  · rw [Definer.flatten_eq, Scope.flattenWith_congr supplied visits own d room]
  have members : ∀ beyond referring m, Definer.defineMember scope referring m state =
      scope.targetMember (scope.workUpTo beyond (state.allNamed scope).length) referring m
        state := by
    intro beyond referring m
    rw [Definer.defineMember_eq,
      Scope.targetMember_congr supplied visits (cut beyond) referring m room]
  have names : ∀ beyond name, Definer.define scope name state =
      scope.workUpTo beyond (state.allNamed scope).length name state := by
    intro beyond name
    rw [Definer.define_eq, cut beyond name state room]
  have merges : ∀ beyond d, Definer.flatten scope d state =
      scope.flattenWith (scope.workUpTo beyond (state.allNamed scope).length) d state := by
    intro beyond d
    rw [Definer.flatten_eq, Scope.flattenWith_congr supplied visits (cut beyond) d room]
  refine ⟨fun beyond => ⟨members beyond, names beyond, merges beyond⟩, fun failure => ?_⟩
  -- for the failures, let the levels end in nothing at all
  have fails := @Scope.workUpTo_fails scope (state.allNamed scope).length
  refine ⟨fun referring m failed => ?_, fun name failed => ?_, fun d failed => ?_⟩
  · rw [members] at failed
    exact (Scope.targetMember_fails fails referring m state).error (Prod.ext failed rfl)
  · rw [names] at failed
    exact (fails name state).error (Prod.ext failed rfl)
  · rw [merges] at failed
    exact (Scope.flattenWith_fails fails d state).error (Prod.ext failed rfl)

/-- Two types that embed each other and refer to one of them. -/
def ringScope : Scope where
  graph := ⟨[("app", { importPath := "app", name := "app", imports := [] })]⟩
  loader := .fixed [("app", [{
    name := "app"
    types := [
      { name := "Node"
        fields := [{ name := some "next", typeText := "*Node" }, { typeText := "Part" }] },
      { name := "Part"
        fields := [{ name := some "all", typeText := "[]Node" }, { typeText := "Node" }] }] }])]

/-- Two levels are enough for the two types, and one is not. -/
theorem definer_ends_ring :
    (Definer.allNamed ringScope {}).length = 2 ∧
    (Definer.defineMember ringScope "app" (.scalar {} "Node" none) {}).1.toOption.isSome = true ∧
    (∀ beyond, Definer.defineMember ringScope "app" (.scalar {} "Node" none) {} =
      ringScope.targetMember (ringScope.workUpTo beyond 2) "app" (.scalar {} "Node" none) {}) ∧
    ∃ beyond, Definer.defineMember ringScope "app" (.scalar {} "Node" none) {} ≠
      ringScope.targetMember (ringScope.workUpTo beyond 1) "app" (.scalar {} "Node" none) {} := by
  have two : (Definer.allNamed ringScope {}).length = 2 := by decide +kernel
  have succeeds : (Definer.defineMember ringScope "app" (.scalar {} "Node" none)
      {}).1.toOption.isSome = true := by decide +kernel
  let refuse : String → Definition → Defining Unit := fun name _ => throw (.nestedTooDeep name)
  have fails : (ringScope.targetMember (ringScope.workUpTo refuse 1) "app" (.scalar {} "Node" none)
      {}).1.toOption.isSome = false := by decide +kernel
  refine ⟨two, succeeds, fun beyond => ?_, refuse, ?_⟩
  · have ends := ((definer_ends ringScope {}).2.1 beyond).1 "app" (.scalar {} "Node" none)
    rwa [two] at ends
  · intro same
    rw [← same, succeeds] at fails
    cases fails

end ApiDocs
