import ApiDocs.Generation
import ApiDocs.Proofs.Resolution
import ApiDocs.Proofs.UnitGraph.Closure

/-!
# Runs with unchanging answers

The journal counts the loads of a path, and answers may depend on the count. If they do not, no run
depends on the journal it starts with: steps that read units return the same whatever the journal,
and steps of two definers that differ in their journals alone keep them so (`Steady`). It follows
for everything that a generation collects (`Contents.collect_steady`).
-/

namespace ApiDocs

/-! ## Steady steps -/

/-- Two runs end alike: with the same result or failure, and in states that agree. -/
def Alike {σ α : Type} (agree : σ → σ → Prop) (run run' : Except Failure α × σ) : Prop :=
  run.1 = run'.1 ∧ agree run.2 run'.2

/-- A step that ends alike in states that agree. -/
def Steady {σ α : Type} (agree : σ → σ → Prop) (step : Stepping σ α) : Prop :=
  ∀ state state', agree state state' → Alike agree (step state) (step state')

section

variable {σ α β : Type} {agree : σ → σ → Prop} {state state' : σ}

/-- Runs that are alike go on alike if what they go on with is. -/
theorem Alike.bind {first first' : Stepping σ α} {next next' : α → Stepping σ β}
    (begins : Alike agree (first state) (first' state'))
    (further : ∀ result left left', agree left left' →
      Alike agree (next result left) (next' result left')) :
    Alike agree ((first >>= next) state) ((first' >>= next') state') := by
  cases ran : first state with
  | mk result left =>
      cases ran' : first' state' with
      | mk result' left' =>
          rw [ran, ran'] at begins
          obtain ⟨same, agreeLeft⟩ := begins
          dsimp only at same
          subst same
          cases result with
          | error failure =>
              rw [Stepping.bind_error ran, Stepping.bind_error ran']
              exact ⟨rfl, agreeLeft⟩
          | ok result =>
              rw [Stepping.bind_ok ran, Stepping.bind_ok ran']
              exact further result left left' agreeLeft

namespace Steady

theorem pure (result : α) : Steady agree (Pure.pure result : Stepping σ α) :=
  fun _ _ same => ⟨rfl, same⟩

theorem throw (failure : Failure) : Steady agree (throw failure : Stepping σ α) :=
  fun _ _ same => ⟨rfl, same⟩

/-- A step that is composed of steady steps is steady. -/
theorem bind {first : Stepping σ α} {next : α → Stepping σ β} (begins : Steady agree first)
    (further : ∀ result, Steady agree (next result)) : Steady agree (first >>= next) :=
  fun state state' same => (begins state state' same).bind fun result => further result

/-- A step that looks at the state may do so as far as agreeing states look the same. -/
theorem get_bind {next : σ → Stepping σ β}
    (further : ∀ state state', agree state state' →
      Alike agree (next state state) (next state' state')) :
    Steady agree (get >>= next) := by
  intro state state' same
  rw [Stepping.get_bind, Stepping.get_bind]
  exact further state state' same

/-- A change of the state is steady if it keeps the agreement. -/
theorem modify {change : σ → σ}
    (keeps : ∀ state state', agree state state' → agree (change state) (change state')) :
    Steady agree (modify change : Stepping σ Unit) :=
  fun state state' same => ⟨rfl, keeps state state' same⟩

end Steady

end

/-! ## Reading units -/

/-- What the step returns does not depend on the journal. -/
abbrev Reading.Steady {α : Type} (step : Reading α) : Prop :=
  ApiDocs.Steady (fun _ _ : Journal => True) step

namespace Reading

variable {α : Type}

/-- A reader whose outcome does not depend on the journal is steady. -/
theorem steady_of_fst {step : Reading α} {outcome : Except Failure α}
    (known : ∀ journal, (step journal).1 = outcome) : Steady step :=
  fun journal journal' _ => ⟨(known journal).trans (known journal').symm, trivial⟩

theorem steady_report (notices : List Notice) : Steady (report notices) :=
  .modify fun _ _ same => same

end Reading

section

variable {loader : Loader} (unchanging : loader.Unchanging)

include unchanging

/-- Loading is steady, since unchanging answers do not depend on earlier loads. -/
theorem Loader.steady_load (path : ImportPath) : Reading.Steady (loader.load path) := by
  have known : ∀ journal, (loader.load path journal).1 = (loader.answer path 0).groups := by
    intro journal
    rw [loader.load_fst, unchanging]
  exact Reading.steady_of_fst known

/-- The graph of units is the same whatever was loaded before. -/
theorem UnitGraph.steady_load (root : ImportPath) (ignore : List String) :
    Reading.Steady (UnitGraph.load loader root ignore) := by
  have same : ∀ past, findAt loader ignore past = findAt loader ignore [] := by
    intro past
    funext path
    rw [findAt, findAt, unchanging path (past.count path), unchanging path (List.count path [])]
  intro journal journal' _
  refine ⟨?_, trivial⟩
  rw [(load_gathers loader root ignore journal).1, (load_gathers loader root ignore journal').1,
    same journal.loads, same journal'.loads]

/-- The comments are the same whatever was loaded before. -/
theorem Scope.steady_commentsIn (paths : List ImportPath) :
    Reading.Steady (Scope.commentsIn loader paths) := by
  induction paths with
  | nil => exact .pure _
  | cons path paths ih =>
      exact .bind (Loader.steady_load unchanging path) fun _ => .bind ih fun _ => .pure _

end

/-! ## Defining types -/

/-- The definers differ in their journals at most. -/
def Definer.Agree (state state' : Definer) : Prop :=
  state.store = state'.store ∧ state.defined = state'.defined

/-- The step ends alike whatever the journal. -/
abbrev Defining.Steady {α : Type} (step : Defining α) : Prop :=
  ApiDocs.Steady Definer.Agree step

namespace Defining

variable {α : Type}

/-- Reading on behalf of a definer touches the journal only. -/
theorem steady_reading {step : Reading α} (steady : Reading.Steady step) :
    Steady (reading step) :=
  fun state state' agree => ⟨(steady state.journal state'.journal trivial).1, agree⟩

/-- The same definition is stored in stores that agree. -/
theorem steady_store (d : Definition) : Steady (Defining.store d) := by
  refine .modify fun state state' agree => ⟨?_, agree.2⟩
  dsimp only
  rw [agree.1]

end Defining

namespace Scope

open Defining (steady_reading steady_store)

variable {scope : Scope} (unchanging : scope.loader.Unchanging)

include unchanging

theorem steady_resolve (referring : ImportPath) (text : String) :
    Reading.Steady (scope.resolve referring text) :=
  Reading.steady_of_fst (resolve_fst unchanging referring text)

/-- A lookup that misses resolves, and both depend on the store alone. -/
theorem steady_find (referring : ImportPath) (text : String) :
    Defining.Steady (scope.find referring text) := by
  refine .get_bind fun state state' agree => ?_
  rw [agree.1]
  cases state'.store.lookup scope.graph referring text with
  | some d => exact Steady.pure _ _ _ agree
  | none =>
      refine Steady.bind (steady_reading (steady_resolve unchanging referring text)) ?_ _ _ agree
      intro found
      cases found with
      | none => exact .pure _
      | some d => exact .bind (steady_store d) fun _ => .pure _

section

variable {visit : String → Defining Unit} (visits : ∀ name, Defining.Steady (visit name))

include visits

/-- Targets are set alike, by induction over the member. -/
theorem steady_targetMember (referring : ImportPath) (m : Member) :
    Defining.Steady (scope.targetMember visit referring m) := by
  induction m with
  | scalar info text target =>
      rw [targetMember]
      split
      · exact .pure _
      · refine .bind (steady_find unchanging referring text) fun found => ?_
        cases found with
        | none => exact .throw _
        | some d => exact .bind (visits _) fun _ => .pure _
  | collection info element ih => exact .bind ih fun _ => .pure _
  | mapping info key value ihKey ihValue =>
      exact .bind ihKey fun _ => .bind ihValue fun _ => .pure _

theorem steady_targetMembers (path : ImportPath) (members : Table Member) :
    Defining.Steady (scope.targetMembers visit path members) := by
  induction members with
  | nil => exact .pure _
  | cons entry members ih =>
      exact .bind (steady_targetMember unchanging visits _ _) fun _ => .bind ih fun _ => .pure _

/-- What is embedded is merged alike: it is found alike, visited alike and looked up alike
afterwards. -/
theorem steady_mergeEmbedded (host : Definition) (text : String) :
    Defining.Steady (scope.mergeEmbedded visit host text) := by
  rw [mergeEmbedded]
  split
  · exact .bind (steady_reading (Reading.steady_report _)) fun _ => .pure _
  · refine .bind (steady_find unchanging _ text) fun found => ?_
    cases found with
    | none => exact .throw _
    | some d =>
        refine .bind (visits _) fun _ => .get_bind fun state state' agree => ?_
        rw [agree.1]
        cases state'.store.get? d.canonical with
        | none => exact Steady.pure _ _ _ agree
        | some source => exact Steady.pure _ _ _ agree

theorem steady_mergeAll (host : Definition) (texts : List String) :
    Defining.Steady (scope.mergeAll visit host texts) := by
  induction texts generalizing host with
  | nil => exact .pure _
  | cons text texts ih => exact .bind (steady_mergeEmbedded unchanging visits host text) ih

theorem steady_complete (d : Definition) : Defining.Steady (scope.complete visit d) :=
  .bind (steady_mergeAll unchanging visits _ _) fun _ =>
    .bind (steady_targetMembers unchanging visits _ _) fun _ => steady_store _

end

/-- A name is defined alike at every bound. -/
theorem steady_defineAll (bound : Nat) (name : String) :
    Defining.Steady (scope.defineAll bound name) := by
  induction bound generalizing name with
  | zero =>
      rw [defineAll]
      refine .get_bind fun state state' agree => ?_
      rw [agree.2]
      split
      · exact Steady.pure _ _ _ agree
      · exact Steady.throw _ _ _ agree
  | succ bound ih =>
      rw [defineAll]
      refine .get_bind fun state state' agree => ?_
      rw [agree.2]
      split
      · exact Steady.pure _ _ _ agree
      · refine Alike.bind ⟨rfl, agree.1, rfl⟩ fun _ left left' agreeLeft => ?_
        rw [agree.1]
        cases state'.store.get? name with
        | none => exact steady_reading (Reading.steady_report _) _ _ agreeLeft
        | some d => exact steady_complete unchanging ih d _ _ agreeLeft

end Scope

namespace Definer

variable {scope : Scope} (unchanging : scope.loader.Unchanging)

include unchanging

theorem steady_defineMember (referring : ImportPath) (m : Member) :
    Defining.Steady (defineMember scope referring m) := by
  refine .get_bind fun state state' agree => ?_
  have same : depth scope state = depth scope state' := by
    rw [depth, depth, agree.1]
  rw [same]
  exact Scope.steady_targetMember unchanging (Scope.steady_defineAll unchanging _) _ _ _ _ agree

theorem steady_defineEach {α : Type} (unit : ImportPath) (member : α → Member)
    (withMember : α → Member → α) (parts : List α) :
    Defining.Steady (defineEach scope unit member withMember parts) := by
  induction parts with
  | nil => exact .pure _
  | cons part parts ih =>
      exact .bind (steady_defineMember unchanging unit _) fun _ => .bind ih fun _ => .pure _

theorem steady_defineOperations (operations : List Directive.Operation) :
    Defining.Steady (defineOperations scope operations) := by
  induction operations with
  | nil => exact .pure _
  | cons o operations ih =>
      have one : Defining.Steady (defineOperation scope o) :=
        .bind (steady_defineEach unchanging _ _ _ _) fun _ =>
          .bind (steady_defineEach unchanging _ _ _ _) fun _ => .pure _
      exact .bind one fun _ => .bind ih fun _ => .pure _

end Definer

/-! ## Generation -/

/-- A definer that starts from an empty store is a steady reader. -/
theorem Reading.steady_defining {α : Type} {step : Defining α} (steady : Defining.Steady step) :
    Reading.Steady (Reading.defining step) := by
  intro journal journal' _
  obtain ⟨same, agree, _⟩ := steady { journal } { journal := journal' } ⟨rfl, rfl⟩
  refine ⟨?_, trivial⟩
  rw [defining, defining]
  generalize step { journal } = run at same agree ⊢
  generalize step { journal := journal' } = run' at same agree ⊢
  obtain ⟨result, state⟩ := run
  obtain ⟨result', state'⟩ := run'
  dsimp only at same agree
  subst same
  cases result with
  | error failure => rfl
  | ok result => exact congrArg (fun store => Except.ok (result, store)) agree

/-- What is collected depends on the root, the ignored parts and the answers alone. -/
theorem Contents.collect_steady {loader : Loader} (unchanging : loader.Unchanging)
    (root : ImportPath) (ignore : List String) (naming naming' : Naming)
    (journal journal' : Journal) :
    (collect ⟨root, naming, ignore⟩ loader journal).1 =
      (collect ⟨root, naming', ignore⟩ loader journal').1 := by
  have steady : Reading.Steady (collect ⟨root, naming, ignore⟩ loader) := by
    refine .bind (Reading.steady_report _) fun _ => ?_
    refine .bind (UnitGraph.steady_load unchanging root ignore) fun graph => ?_
    refine .bind (Reading.steady_report _) fun _ => ?_
    refine .bind (Scope.steady_commentsIn unchanging _) fun blocks => ?_
    refine .bind (Reading.steady_report _) fun _ => ?_
    refine .bind (Reading.steady_defining ?_) fun _ => ?_
    · exact @Definer.steady_defineOperations ⟨graph, loader⟩ unchanging _
    · exact .bind (Reading.steady_report _) fun _ => .pure _
  exact (steady journal journal' trivial).1

end ApiDocs
