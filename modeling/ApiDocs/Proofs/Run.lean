import ApiDocs.Definer

/-!
# How runs end

A step of `Reading` or `Defining` takes a state to a result or a failure and to a state that it
leaves in either case. `Ends` says what holds then, and its rules follow the way steps are put
together, so that a proof about a step never unfolds the transformers that it is built from.
-/

namespace ApiDocs

/-- A step that may fail and leaves a state either way. -/
abbrev Stepping (σ α : Type) := ExceptT Failure (StateM σ) α

namespace Stepping

variable {σ α β : Type} {first : Stepping σ α} {next : α → Stepping σ β} {state left : σ}

theorem bind_ok {result : α} (ran : first state = (.ok result, left)) :
    (first >>= next) state = next result left := by
  change (match first state with
    | (result, left) => ExceptT.bindCont next result left) = _
  rw [ran]
  rfl

theorem bind_error {failure : Failure} (ran : first state = (.error failure, left)) :
    (first >>= next) state = (.error failure, left) := by
  change (match first state with
    | (result, left) => ExceptT.bindCont next result left) = _
  rw [ran]
  rfl

theorem get_bind (next : σ → Stepping σ β) (state : σ) :
    ((get : Stepping σ σ) >>= next) state = next state state :=
  bind_ok rfl

end Stepping

/-- What a run ends with: `good` of the result and the state it leaves, or `bad` of the failure
and the state. -/
def Ends {σ α : Type} (run : Except Failure α × σ) (good : α → σ → Prop)
    (bad : Failure → σ → Prop) : Prop :=
  match run with
  | (.ok result, state) => good result state
  | (.error failure, state) => bad failure state

/-- A run with a known result is one that succeeds. -/
theorem exists_of_toOption {σ α β : Type} {run : Except Failure α × σ} {view : α → β} {known : β}
    (succeeds : run.1.toOption.map view = some known) :
    ∃ result state, run = (.ok result, state) ∧ view result = known := by
  obtain ⟨failure | result, state⟩ := run
  · cases succeeds
  · exact ⟨result, state, rfl, Option.some.inj succeeds⟩

/-- A run that is known to succeed has a result and a state. -/
theorem exists_eq_of_isSome {σ α : Type} {run : Except Failure α × σ}
    (succeeds : run.1.toOption.isSome = true) (other : α) :
    ∃ state, run = (.ok (run.1.toOption.getD other), state) := by
  obtain ⟨failure | result, state⟩ := run
  · cases succeeds
  · exact ⟨state, rfl⟩

namespace Ends

variable {σ α β : Type} {run : Except Failure α × σ} {good good' : α → σ → Prop}
  {bad bad' : Failure → σ → Prop}

theorem ok {result : α} {state : σ} (ends : Ends run good bad)
    (ran : run = (.ok result, state)) : good result state := by
  subst ran
  exact ends

theorem error {failure : Failure} {state : σ} (ends : Ends run good bad)
    (ran : run = (.error failure, state)) : bad failure state := by
  subst ran
  exact ends

/-- A run ends as it is stated if either outcome does. -/
theorem of_cases
    (succeeds : ∀ result state, run = (.ok result, state) → good result state)
    (fails : ∀ failure state, run = (.error failure, state) → bad failure state) :
    Ends run good bad := by
  obtain ⟨result | result, state⟩ := run
  · exact fails _ _ rfl
  · exact succeeds _ _ rfl

theorem mono (ends : Ends run good bad) (onGood : ∀ result state, good result state →
    good' result state) (onBad : ∀ failure state, bad failure state → bad' failure state) :
    Ends run good' bad' :=
  of_cases (fun result state ran => onGood result state (ends.ok ran))
    fun failure state ran => onBad failure state (ends.error ran)

/-- The result of a run, read off what it ends with. -/
theorem fst_eq {outcome : Except Failure α}
    (ends : Ends run (fun result _ => outcome = .ok result) fun failure _ =>
      outcome = .error failure) : run.1 = outcome := by
  obtain ⟨result | result, state⟩ := run
  · exact ends.symm
  · exact ends.symm

theorem of_fst_eq {outcome : Except Failure α} (known : run.1 = outcome) :
    Ends run (fun result _ => outcome = .ok result) fun failure _ => outcome = .error failure :=
  of_cases (fun _ _ ran => known.symm.trans (congrArg Prod.fst ran))
    fun _ _ ran => known.symm.trans (congrArg Prod.fst ran)

/-- What holds of the state however a run ends. -/
theorem snd {holds : σ → Prop} (ends : Ends run (fun _ state => holds state) fun _ state =>
    holds state) : holds run.2 := by
  obtain ⟨result | result, state⟩ := run
  · exact ends
  · exact ends

variable {first : Stepping σ α} {next : α → Stepping σ β} {state : σ} {goodNext : β → σ → Prop}

/-- A sequence ends well if its second run does from wherever the first one ends. -/
theorem bind (ends : Ends (first state) (fun result left => Ends (next result left) goodNext bad)
    bad) : Ends ((first >>= next) state) goodNext bad := by
  cases ran : first state with
  | mk result left =>
      cases result with
      | error failure =>
          rw [Stepping.bind_error ran]
          exact ends.error ran
      | ok result =>
          rw [Stepping.bind_ok ran]
          exact ends.ok ran

theorem pure {result : α} (holds : good result state) :
    Ends ((Pure.pure result : Stepping σ α) state) good bad := holds

theorem throw {failure : Failure} (holds : bad failure state) :
    Ends ((throw failure : Stepping σ α) state) good bad := holds

theorem get {goodState : σ → σ → Prop} (holds : goodState state state) :
    Ends ((get : Stepping σ σ) state) goodState bad := holds

theorem set {goodUnit : Unit → σ → Prop} {replaced : σ} (holds : goodUnit () replaced) :
    Ends ((set replaced : Stepping σ Unit) state) goodUnit bad := holds

theorem modify {goodUnit : Unit → σ → Prop} {change : σ → σ} (holds : goodUnit () (change state)) :
    Ends ((modify change : Stepping σ Unit) state) goodUnit bad := holds

end Ends

/-- A step that reads units ends in what it ends in on the journal, and changes nothing else. -/
theorem Defining.ends_reading {α : Type} {step : Reading α} {state : Definer}
    {good : α → Definer → Prop} {bad : Failure → Definer → Prop}
    (ends : Ends (step state.journal) (fun result journal => good result { state with journal })
      fun failure journal => bad failure { state with journal }) :
    Ends (Defining.reading step state) good bad := by
  cases ran : step state.journal with
  | mk result journal =>
      have unfolded : Defining.reading step state = (result, { state with journal }) := by
        rw [Defining.reading, ran]
      rw [unfolded]
      cases result with
      | error failure => exact ends.error ran
      | ok result => exact ends.ok ran

end ApiDocs
