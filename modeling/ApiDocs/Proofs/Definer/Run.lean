import ApiDocs.Proofs.Definer.Step

/-!
# Runs of a definer are steps

Every run of `Scope.defineAll`, `Definer.defineMember` and what they are made of is a sequence of
`Step`s from the configuration that it starts in (`Follows`). A run that succeeds closes all that it
opens. A run that fails stops at a configuration that is `Stuck`: a reference that it asks for is
neither stored nor resolved. In particular the bound on the nesting is never reached, because every
level visits one more of the names that there are (`defineAll_follows`).
-/

namespace ApiDocs

/-! ## Names that are left -/

/-- How many of the names are not visited. -/
def Definer.unvisited (supply : List String) (state : Definer) : Nat :=
  supply.countP fun name => !state.defined.contains name

theorem Definer.Grows.unvisited_le {state state' : Definer} (grows : state.Grows state')
    (supply : List String) : state'.unvisited supply ≤ state.unvisited supply := by
  refine List.countP_mono_left fun name _ fresh => ?_
  simp only [Bool.not_eq_true', List.contains_eq_mem, decide_eq_false_iff_not] at fresh ⊢
  exact fun visited => fresh (grows.defined name visited)

/-- The visit of a new name leaves fewer names to visit, which is what bounds the depth. -/
theorem Definer.unvisited_visit {supply : List String} {state : Definer} {name : String}
    (present : name ∈ supply) (fresh : name ∉ state.defined) :
    Definer.unvisited supply { state with defined := name :: state.defined } <
      state.unvisited supply := by
  induction supply with
  | nil => cases present
  | cons first rest ih =>
      have fewer : Definer.unvisited rest { state with defined := name :: state.defined } ≤
          state.unvisited rest := (Definer.Grows.visit state name).unvisited_le rest
      simp only [Definer.unvisited, List.countP_cons] at fewer ih ⊢
      by_cases here : first = name
      · subst here
        simp [fresh]
        simpa using Nat.lt_succ_of_le fewer
      · have later : name ∈ rest := (List.mem_cons.mp present).resolve_left (Ne.symm here)
        have same : (name :: state.defined).contains first = state.defined.contains first := by
          simp [here]
        rw [same]
        exact Nat.add_lt_add_right (ih later) _

/-! ## Following a run -/

/-- The definer cannot go on: a reference that it asks for is not stored and does not resolve. -/
def Conf.Stuck (scope : Scope) (roots : ImportPath → String → Prop) (conf : Conf) : Prop :=
  ∃ referring text journal, Asks roots conf.stack referring text ∧
    conf.state.store.lookup scope.graph referring text = none ∧
    ∀ d, (scope.resolve referring text journal).1 ≠ .ok (some d)

/-- The run is a sequence of steps from the configuration: to the stack that belongs to its result
if it succeeds, and to a place where it is stuck if it fails. -/
def Follows {α : Type} (scope : Scope) (roots : ImportPath → String → Prop) (start : Conf)
    (run : Except Failure α × Definer) (stack : α → List Definition)
    (good : α → Definer → Prop) : Prop :=
  Ends run
    (fun result state => Steps scope roots start ⟨stack result, none, state⟩ ∧ good result state)
    fun _ state => ∃ stack', Steps scope roots start ⟨stack', none, state⟩ ∧
      Conf.Stuck scope roots ⟨stack', none, state⟩

section

variable {α β : Type} {scope : Scope} {roots : ImportPath → String → Prop} {start middle : Conf}

theorem Follows.head {run : Except Failure α × Definer} {stack : α → List Definition}
    {good : α → Definer → Prop} (steps : Steps scope roots start middle)
    (follows : Follows scope roots middle run stack good) :
    Follows scope roots start run stack good :=
  follows.mono (fun _ _ ⟨later, holds⟩ => ⟨steps.trans later, holds⟩)
    fun _ _ ⟨stack', later, stuck⟩ => ⟨stack', steps.trans later, stuck⟩

/-- A sequence follows the machine if its second part does from where the first one ends. -/
theorem Follows.bind {first : Defining α} {next : α → Defining β} {state : Definer}
    {stack : α → List Definition} {good : α → Definer → Prop} {stackNext : β → List Definition}
    {goodNext : β → Definer → Prop}
    (follows : Follows scope roots start (first state) stack good)
    (followsNext : ∀ result left, Steps scope roots start ⟨stack result, none, left⟩ →
      good result left →
      Follows scope roots ⟨stack result, none, left⟩ (next result left) stackNext goodNext) :
    Follows scope roots start ((first >>= next) state) stackNext goodNext :=
  Ends.bind (follows.mono
    (fun result left ⟨steps, holds⟩ => (followsNext result left steps holds).head steps)
    fun _ _ stops => stops)

theorem Follows.pure {state : Definer} {result : α} {stack : α → List Definition}
    {good : α → Definer → Prop} (holds : good result state)
    (steps : Steps scope roots start ⟨stack result, none, state⟩) :
    Follows scope roots start ((pure result : Defining α) state) stack good :=
  ⟨steps, holds⟩

end

namespace Scope

variable {scope : Scope} {roots : ImportPath → String → Prop} {supply : List String}

/-! ## References -/

/-- Looking a reference up leaves its name waiting, or nothing to go on with. -/
theorem find_ends {stack : List Definition} {state : Definer} {referring : ImportPath}
    {text : String} (asks : Asks roots stack referring text) :
    Ends (scope.find referring text state)
      (fun found left => match found with
        | some d => Steps scope roots ⟨stack, none, state⟩ ⟨stack, some d.canonical, left⟩ ∧
            scope.Names left.store referring text d ∧ left.store.get? d.canonical = some d
        | none => Steps scope roots ⟨stack, none, state⟩ ⟨stack, none, left⟩ ∧
            Conf.Stuck scope roots ⟨stack, none, left⟩)
      fun _ left => Steps scope roots ⟨stack, none, state⟩ ⟨stack, none, left⟩ ∧
        Conf.Stuck scope roots ⟨stack, none, left⟩ := by
  refine Ends.bind (Ends.get ?_)
  cases found : state.store.lookup scope.graph referring text with
  | some d =>
      obtain ⟨path, candidate, known⟩ := names_of_lookup found
      exact Ends.pure ⟨.single (.hit asks found), ⟨path, candidate, known⟩,
        Store.get?_canonical known⟩
  | none =>
      refine Ends.bind (Defining.ends_reading (Ends.of_cases (fun answer journal ran => ?_)
        fun failure journal ran => ?_))
      · cases answer with
        | none =>
            refine Ends.pure ⟨.single (.read journal), referring, text, state.journal, asks, found,
              fun d same => ?_⟩
            rw [ran] at same
            cases same
        | some d =>
            obtain ⟨path, candidate, offers⟩ :=
              (scope.resolve_offers referring text state.journal).ok ran d rfl
            have known := Store.get?_add_self state.store d
            refine Ends.bind (Ends.modify (Ends.pure ⟨.single (.miss asks found ran), ?_, known⟩))
            exact ⟨path, candidate, offers.canonical_eq ▸ known⟩
      · refine ⟨.single (.read journal), referring, text, state.journal, asks, found,
          fun d same => ?_⟩
        rw [ran] at same
        cases same

/-- Visiting a stored name follows it from where it waits, as long as there are no more names left
than the bound. -/
def Visits (scope : Scope) (roots : ImportPath → String → Prop) (supply : List String)
    (bound : Nat) (visit : String → Defining Unit) : Prop :=
  ∀ stack name state d, Conf.Sound supply ⟨stack, some name, state⟩ →
    state.store.get? name = some d → state.unvisited supply ≤ bound →
    Follows scope roots ⟨stack, some name, state⟩ (visit name state) (fun _ => stack)
      fun _ left => name ∈ left.defined

/-- A reference is looked up and its name is visited; the run goes on with what it found, by then
perhaps in a later form `d'`. -/
theorem find_follows {α : Type} {bound : Nat} {visit : String → Defining Unit}
    {stack : List Definition} {state : Definer} {referring : ImportPath} {text : String}
    {rest : Option Definition → Defining α} {next : Definition → Defining α} {failure : Failure}
    {stackNext : α → List Definition} {good : α → Definer → Prop}
    (rest_none : rest none = throw failure)
    (rest_some : ∀ d, rest (some d) = do visit d.canonical; next d)
    (visits : Visits scope roots supply bound visit)
    (within : ∀ name ∈ scope.names, name ∈ supply) (asks : Asks roots stack referring text)
    (sound : Conf.Sound supply ⟨stack, none, state⟩) (room : state.unvisited supply ≤ bound)
    (followsNext : ∀ d d' left, Steps scope roots ⟨stack, none, state⟩ ⟨stack, none, left⟩ →
      left.store.get? d.canonical = some d' → d'.core = d.core →
      scope.Names left.store referring text d' → d.canonical ∈ left.defined →
      Follows scope roots ⟨stack, none, left⟩ (next d left) stackNext good) :
    Follows scope roots ⟨stack, none, state⟩ ((scope.find referring text >>= rest) state) stackNext
      good := by
  refine Ends.bind ((find_ends asks).mono (fun found left holds => ?_)
    fun _ _ stops => ⟨stack, stops⟩)
  cases found with
  | none =>
      rw [rest_none]
      exact Ends.throw ⟨stack, holds⟩
  | some d =>
      rw [rest_some]
      obtain ⟨steps, named, known⟩ := holds
      have grows := steps.grows within sound
      have visited := visits stack d.canonical left d (steps.sound within sound) known
        (Nat.le_trans (grows.unvisited_le supply) room)
      refine Follows.head steps (Follows.bind visited fun _ later stepsLater defined => ?_)
      have growsLater := stepsLater.grows within (steps.sound within sound)
      obtain ⟨path, candidate, knownPath⟩ := named
      obtain ⟨d', knownLater, core⟩ := growsLater.stored _ d known
      have same := Store.canonical_of_get? knownPath
      exact followsNext d d' later (steps.trans stepsLater) knownLater core
        ⟨path, candidate, same ▸ knownLater⟩ defined

/-! ## Members -/

section Visiting

variable {bound : Nat} {visit : String → Defining Unit}
  (visits : Visits scope roots supply bound visit)
  (within : ∀ name ∈ scope.names, name ∈ supply)

include visits within

/-- Getting the targets of a member follows the machine and leaves the stack as it is. -/
theorem targetMember_follows {stack : List Definition} {referring : ImportPath} (m : Member)
    {state : Definer} (asks : ∀ text ∈ m.unresolved, Asks roots stack referring text)
    (sound : Conf.Sound supply ⟨stack, none, state⟩) (room : state.unvisited supply ≤ bound) :
    Follows scope roots ⟨stack, none, state⟩ (scope.targetMember visit referring m state)
      (fun _ => stack) fun m' left => scope.Targets left referring m m' := by
  induction m generalizing state with
  | scalar info text target =>
      rw [targetMember]
      split
      · rename_i settled
        exact Follows.pure (.kept settled) .refl
      · rename_i needs
        simp only [Bool.or_eq_true, not_or, Bool.not_eq_true, Option.isSome_eq_false_iff,
          Option.isNone_iff_eq_none] at needs
        obtain ⟨declares, rfl⟩ := needs
        have listed := asks text (by simp [Member.unresolved, declares])
        refine find_follows rfl (fun _ => rfl) visits within listed sound room
          fun d d' left steps known core named defined => ?_
        rw [← Definition.target_eq_of_core core]
        refine Follows.pure (.found declares named ?_) .refl
        rw [Definition.canonical_eq_of_core core]
        exact defined
  | collection info element ih =>
      exact Follows.bind (ih asks sound room) fun _ _ _ targeted =>
        Follows.pure (.collection targeted) .refl
  | mapping info key value ihKey ihValue =>
      refine Follows.bind (ihKey (fun text open_ => asks text (List.mem_append_left _ open_)) sound
        room) fun key' left steps targetedKey => ?_
      have grows := steps.grows within sound
      have soundLeft := steps.sound within sound
      refine Follows.bind (ihValue (fun text open_ => asks text (List.mem_append_right _ open_))
        soundLeft (Nat.le_trans (grows.unvisited_le supply) room))
        fun value' later stepsLater targetedValue => ?_
      exact Follows.pure (.mapping ((stepsLater.grows within soundLeft).targets targetedKey)
        targetedValue) .refl

/-- Getting the targets of all members follows the machine and leaves the stack as it is. -/
theorem targetMembers_follows {stack : List Definition} {path : ImportPath}
    (members : Table Member) {state : Definer}
    (asks : ∀ entry ∈ members, ∀ text ∈ entry.2.unresolved,
      Asks roots stack (referringUnit path entry.2) text)
    (sound : Conf.Sound supply ⟨stack, none, state⟩) (room : state.unvisited supply ≤ bound) :
    Follows scope roots ⟨stack, none, state⟩ (scope.targetMembers visit path members state)
      (fun _ => stack) fun members' left => scope.TargetsAll left path members members' := by
  induction members generalizing state with
  | nil => exact Follows.pure .nil .refl
  | cons entry members ih =>
      refine Follows.bind (targetMember_follows visits within entry.2
        (asks entry List.mem_cons_self) sound room) fun m' left steps targeted => ?_
      have grows := steps.grows within sound
      have soundLeft := steps.sound within sound
      refine Follows.bind (ih (fun e later => asks e (List.mem_cons_of_mem _ later)) soundLeft
        (Nat.le_trans (grows.unvisited_le supply) room)) fun members' later stepsLater rest => ?_
      exact Follows.pure
        (.cons ⟨rfl, (stepsLater.grows within soundLeft).targets targeted⟩ rest) .refl

/-! ## Embedding -/

theorem mergeEmbedded_follows {host : Definition} {stack : List Definition} {text : String}
    {texts : List String} {state : Definer}
    (sound : Conf.Sound supply ⟨{ host with embedded := text :: texts } :: stack, none, state⟩)
    (room : state.unvisited supply ≤ bound) :
    Follows scope roots ⟨{ host with embedded := text :: texts } :: stack, none, state⟩
      (scope.mergeEmbedded visit host text state)
      (fun host' => { host' with embedded := texts } :: stack)
      fun host' _ => host'.embedded = host.embedded := by
  rw [mergeEmbedded]
  split
  · rename_i primitive
    have skips : isMergeable text = false := by simpa using primitive
    refine Ends.bind (Defining.ends_reading (Ends.modify ?_))
    exact Ends.pure ⟨.tail (.single (.read _)) (.skip rfl skips), rfl⟩
  · rename_i mergeable
    have merges : isMergeable text = true := by simpa using mergeable
    have asks : Asks roots ({ host with embedded := text :: texts } :: stack) host.importPath
        text :=
      @Asks.embedded roots { host with embedded := text :: texts } stack text texts rfl merges
    refine find_follows rfl (fun _ => rfl) visits within asks sound room ?_
    intro d source left steps known core named defined
    refine Ends.bind (Ends.get ?_)
    rw [known]
    have visited : source.canonical ∈ left.defined := by
      rw [Definition.canonical_eq_of_core core]
      exact defined
    have merged := @Step.merge scope roots { host with embedded := text :: texts } source stack left
      text texts rfl merges named visited
    exact Ends.pure ⟨.single merged, rfl⟩

/-- Merging all that is embedded follows the machine with the host on top of the stack. -/
theorem mergeAll_follows (texts : List String) {host : Definition} {stack : List Definition}
    {state : Definer}
    (sound : Conf.Sound supply ⟨{ host with embedded := texts } :: stack, none, state⟩)
    (room : state.unvisited supply ≤ bound) :
    Follows scope roots ⟨{ host with embedded := texts } :: stack, none, state⟩
      (scope.mergeAll visit host texts state) (fun host' => { host' with embedded := [] } :: stack)
      fun host' _ => host'.embedded = host.embedded := by
  induction texts generalizing host state with
  | nil => exact Follows.pure rfl .refl
  | cons text texts ih =>
      refine Follows.bind (mergeEmbedded_follows visits within sound room)
        fun host' left steps same => ?_
      have grows := steps.grows within sound
      refine (ih (steps.sound within sound) (Nat.le_trans (grows.unvisited_le supply) room)).mono
        ?_ fun _ _ stops => stops
      rintro merged later ⟨stepsLater, sameLater⟩
      exact ⟨stepsLater, sameLater.trans same⟩

/-! ## Whole definitions -/

/-- The work on a definition follows the machine until it is taken off the stack. -/
theorem complete_follows {d : Definition} {stack : List Definition} {state : Definer}
    (sound : Conf.Sound supply ⟨d :: stack, none, state⟩)
    (room : state.unvisited supply ≤ bound) :
    Follows scope roots ⟨d :: stack, none, state⟩ (scope.complete visit d state)
      (fun _ => stack) fun _ _ => True := by
  have flattens : Follows scope roots ⟨d :: stack, none, state⟩ (scope.flattenWith visit d state)
      (fun merged => { merged with embedded := [] } :: stack)
      fun merged _ => merged.embedded = [] :=
    mergeAll_follows visits within d.embedded sound room
  refine Follows.bind flattens fun merged left steps flat => ?_
  have grows := steps.grows within sound
  have soundLeft := steps.sound within sound
  have whole : { merged with embedded := [] } = merged := by
    cases merged
    cases flat
    rfl
  rw [whole] at soundLeft steps ⊢
  refine Follows.bind (targetMembers_follows visits within merged.members
    (fun entry among text open_ => .member flat among open_) soundLeft
    (Nat.le_trans (grows.unvisited_le supply) room)) fun members later stepsLater targeted => ?_
  exact Ends.modify ⟨.single (.close flat targeted), trivial⟩

end Visiting

/-- A visit of a stored name follows the steps: it passes over a visited name, and opens and closes
any other. -/
theorem defineAll_follows (within : ∀ name ∈ scope.names, name ∈ supply) (bound : Nat) :
    Visits scope roots supply bound (scope.defineAll bound) := by
  induction bound with
  | zero =>
      intro stack name state d sound known room
      have visited : name ∈ state.defined := by
        by_contra fresh
        have fewer := Definer.unvisited_visit (sound.supplied name d known) fresh
        omega
      refine Ends.bind (Ends.get ?_)
      rw [if_pos (List.contains_iff_mem.mpr visited)]
      exact Follows.pure visited (.single (.pass visited))
  | succ bound ih =>
      intro stack name state d sound known room
      refine Ends.bind (Ends.get ?_)
      split
      · rename_i contained
        have visited := List.contains_iff_mem.mp contained
        exact Follows.pure visited (.single (.pass visited))
      · rename_i notContained
        have fresh : name ∉ state.defined := fun visited =>
          notContained (List.contains_iff_mem.mpr visited)
        have enters : Step scope roots ⟨stack, some name, state⟩
            ⟨d :: stack, none, { state with defined := name :: state.defined }⟩ :=
          .enter fresh known
        have fewer := Definer.unvisited_visit (sound.supplied name d known) fresh
        refine Ends.bind (Ends.set ?_)
        rw [known]
        refine Follows.head (.single enters) ?_
        have opened := enters.sound within sound
        refine (complete_follows ih within opened (by omega)).mono ?_ fun _ _ stops => stops
        rintro _ left ⟨steps, _⟩
        exact ⟨steps, (steps.grows within opened).defined name List.mem_cons_self⟩

end Scope

/-! ## Calls -/

namespace Definer

/-- Targets members in order, each in its unit. -/
def defineInOrder (scope : Scope) : List (ImportPath × Member) → Defining (List Member)
  | [] => pure []
  | call :: calls => do
    let member ← defineMember scope call.1 call.2
    return member :: (← defineInOrder scope calls)

/-- The references that calls look up. -/
def Called (calls : List (ImportPath × Member)) (referring : ImportPath) (text : String) : Prop :=
  ∃ call ∈ calls, call.1 = referring ∧ text ∈ call.2.unresolved

variable {scope : Scope} {roots : ImportPath → String → Prop} {supply : List String}

/-- All names that a definer can meet from a state on. -/
def allNames (scope : Scope) (state : Definer) : List String :=
  (scope.names ++ state.store.names).eraseDups

theorem mem_allNames (scope : Scope) (state : Definer) :
    ∀ name ∈ scope.names, name ∈ state.allNames scope := fun _ declared =>
  List.mem_eraseDups.mpr (List.mem_append_left _ declared)

/-- Between calls nothing is needed of the store. -/
theorem sound_allNames (scope : Scope) (state : Definer) (waiting : Option String) :
    Conf.Sound (state.allNames scope) ⟨[], waiting, state⟩ := by
  refine ⟨fun name d known => ?_, nofun⟩
  exact List.mem_eraseDups.mpr (List.mem_append_right _ (Table.mem_keys_of_get? known))

/-- The depth of a call is enough for all names that are not visited. -/
theorem unvisited_allNames_le (state : Definer) :
    state.unvisited (state.allNames scope) ≤ depth scope state :=
  Nat.le_succ_of_le List.countP_le_length

/-- A call for a member follows the machine from an empty stack back to one. -/
theorem defineMember_follows {referring : ImportPath} {m : Member} {state : Definer}
    (asked : ∀ text ∈ m.unresolved, roots referring text) :
    Follows scope roots ⟨[], none, state⟩ (defineMember scope referring m state) (fun _ => [])
      fun m' left => scope.Targets left referring m m' := by
  have within := mem_allNames scope state
  exact Ends.bind (Ends.get (Scope.targetMember_follows (Scope.defineAll_follows within _) within m
    (fun text open_ => .root (asked text open_)) (sound_allNames scope state none)
    (unvisited_allNames_le state)))

/-- Calls in order are steps, and each member has its targets. -/
theorem defineInOrder_follows (within : ∀ name ∈ scope.names, name ∈ supply)
    (calls : List (ImportPath × Member)) {state : Definer}
    (asked : ∀ referring text, Called calls referring text → roots referring text)
    (sound : Conf.Sound supply ⟨[], none, state⟩) :
    Follows scope roots ⟨[], none, state⟩ (defineInOrder scope calls state) (fun _ => [])
      fun members left =>
        List.Forall₂ (fun call m' => scope.Targets left call.1 call.2 m') calls members := by
  induction calls generalizing state with
  | nil => exact Follows.pure .nil .refl
  | cons call calls ih =>
      have first : ∀ text ∈ call.2.unresolved, roots call.1 text := fun text open_ =>
        asked call.1 text ⟨call, List.mem_cons_self, rfl, open_⟩
      have others : ∀ referring text, Called calls referring text → roots referring text := by
        rintro referring text ⟨c, later, rfl, open_⟩
        exact asked c.1 text ⟨c, List.mem_cons_of_mem _ later, rfl, open_⟩
      refine Follows.bind (defineMember_follows first) fun m' left steps targeted => ?_
      have soundLeft := steps.sound within sound
      refine Follows.bind (ih others soundLeft) fun members later stepsLater rest => ?_
      exact Follows.pure (.cons ((stepsLater.grows within soundLeft).targets targeted) rest) .refl

end Definer

end ApiDocs
