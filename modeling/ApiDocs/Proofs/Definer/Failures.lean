import ApiDocs.Proofs.Resolution

/-!
# What a definer fails with

A definer fails if a unit of the graph has no usable answer, if a member refers to no known type, or
if an embedded type is not known (`Scope.Fails`). The steps are shown to fail with nothing else as
long as the visits do that they make.
-/

namespace ApiDocs

/-- Whatever state the step is taken in, it fails with allowed failures only. -/
def FailsWith {σ α : Type} (allowed : Failure → Prop) (step : Stepping σ α) : Prop :=
  ∀ state, Ends (step state) (fun _ _ => True) fun failure _ => allowed failure

namespace FailsWith

variable {σ α β : Type} {allowed : Failure → Prop}

theorem pure (result : α) : FailsWith allowed (Pure.pure result : Stepping σ α) :=
  fun _ => trivial

theorem throw {failure : Failure} (due : allowed failure) :
    FailsWith allowed (throw failure : Stepping σ α) :=
  fun _ => due

theorem get : FailsWith allowed (get : Stepping σ σ) := fun _ => trivial

theorem set (replaced : σ) : FailsWith allowed (set replaced : Stepping σ Unit) := fun _ => trivial

theorem modify (change : σ → σ) : FailsWith allowed (modify change : Stepping σ Unit) :=
  fun _ => trivial

/-- Steps one after the other fail as one of them does. -/
theorem bind {first : Stepping σ α} {next : α → Stepping σ β} (begins : FailsWith allowed first)
    (further : ∀ result, FailsWith allowed (next result)) : FailsWith allowed (first >>= next) :=
  fun state => Ends.bind ((begins state).mono (fun result left _ => further result left)
    fun _ _ due => due)

theorem report (notices : List Notice) : FailsWith allowed (Reading.report notices) :=
  modify _

/-- What a reader can fail with is inherited from what it is composed of. -/
theorem law (allowed : Failure → Prop) :
    Reading.Law fun α (step : Reading α) => FailsWith allowed step :=
  ⟨pure, report, bind⟩

theorem reading {step : Reading α} (fails : FailsWith allowed step) :
    FailsWith allowed (Defining.reading step) :=
  fun state => Defining.ends_reading (fails state.journal)

end FailsWith

/-- The failures that defining types has a reason for. -/
inductive Scope.Fails (scope : Scope) : Failure → Prop
  | answer {path : ImportPath} {answer : Answer} {failure : Failure} :
    path ∈ scope.graph.paths → answer ∈ scope.loader.answers path →
    answer.selection path = .error failure → scope.Fails failure
  | member (text field : String) (unit : ImportPath) :
    scope.Fails (.unresolvedType text field unit)
  | embedded (host text : String) : scope.Fails (.unresolvedEmbedded host text)

namespace Scope

variable {scope : Scope}

/-! ## Resolution -/

/-- A load fails as the answer of its unit does. -/
theorem loadSelected_fails {path : ImportPath} (known : path ∈ scope.graph.paths) :
    FailsWith scope.Fails (scope.loader.loadSelected path) := by
  intro journal
  have ends := Ends.of_fst_eq (scope.loader.loadSelected_fst path journal)
  refine ends.mono (fun _ _ _ => trivial) fun failure _ failed => ?_
  exact .answer known (scope.loader.answer_mem_answers path _) failed

/-- A lookup fails as the units do that it asks for. -/
theorem find_fails (referring : ImportPath) (text : String) :
    FailsWith scope.Fails (scope.find referring text) := by
  refine .bind .get fun state => ?_
  cases state.store.lookup scope.graph referring text with
  | some d => exact .pure _
  | none =>
      have resolves : FailsWith scope.Fails (scope.resolve referring text) :=
        (FailsWith.law _).resolve (fun _ => loadSelected_fails) referring text
      refine .bind (.reading resolves) fun found => ?_
      cases found with
      | none => exact .pure _
      | some d => exact .bind (.modify _) fun _ => .pure _

/-! ## Definition -/

section Visits

variable {visit : String → Defining Unit} (visits : ∀ name, FailsWith scope.Fails (visit name))

include visits

/-- Targets fail as lookups and visits do, or for a reference to a type that is not known. -/
theorem targetMember_fails (referring : ImportPath) (m : Member) :
    FailsWith scope.Fails (scope.targetMember visit referring m) := by
  induction m with
  | scalar info text target =>
      rw [targetMember]
      split
      · exact .pure _
      · refine .bind (find_fails referring text) fun found => ?_
        cases found with
        | none => exact .throw (.member _ _ _)
        | some d => exact .bind (visits _) fun _ => .pure _
  | collection info element ih => exact .bind ih fun _ => .pure _
  | mapping info key value ihKey ihValue =>
      exact .bind ihKey fun _ => .bind ihValue fun _ => .pure _

theorem targetMembers_fails (path : ImportPath) (members : Table Member) :
    FailsWith scope.Fails (scope.targetMembers visit path members) := by
  induction members with
  | nil => exact .pure _
  | cons entry members ih =>
      exact .bind (targetMember_fails visits _ entry.2) fun _ => .bind ih fun _ => .pure _

/-- Merging fails as lookups and visits do, or for an embedded type that is not known. -/
theorem mergeEmbedded_fails (host : Definition) (text : String) :
    FailsWith scope.Fails (scope.mergeEmbedded visit host text) := by
  rw [mergeEmbedded]
  split
  · exact .bind (.reading (.report _)) fun _ => .pure _
  · refine .bind (find_fails _ text) fun found => ?_
    cases found with
    | none => exact .throw (.embedded _ _)
    | some d =>
        refine .bind (visits _) fun _ => .bind .get fun state => ?_
        cases state.store.get? d.canonical with
        | none => exact .pure _
        | some source => exact .pure _

theorem mergeAll_fails (texts : List String) (host : Definition) :
    FailsWith scope.Fails (scope.mergeAll visit host texts) := by
  induction texts generalizing host with
  | nil => exact .pure _
  | cons text texts ih => exact .bind (mergeEmbedded_fails visits host text) ih

theorem flattenWith_fails (d : Definition) : FailsWith scope.Fails (scope.flattenWith visit d) :=
  mergeAll_fails visits d.embedded _

/-- The work on a definition fails as its parts do. -/
theorem complete_fails (d : Definition) : FailsWith scope.Fails (scope.complete visit d) :=
  .bind (flattenWith_fails visits d) fun merged =>
    .bind (targetMembers_fails visits _ merged.members) fun _ => .modify _

end Visits

end Scope

end ApiDocs
