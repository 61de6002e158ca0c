import ApiDocs.Failure
import ApiDocs.Notice

/-!
# Loading units

A loader answers which declaration groups a unit has. Its answers may change while a run goes on:
`History` gives the first answers for a path one by one and the answer that all later loads get.
Every load is recorded in the `Journal` of the run, together with the notices, and the journal
survives a failure.
-/

namespace ApiDocs

/-- What one load of a unit gives: the groups, nothing where the unit is not located, or a
failure. -/
structure Answer where
  groups : Except Failure (Option (List DeclGroup))
  notices : List Notice := []

namespace Answer

/-- The unit is not located. -/
def notLocated : Answer := { groups := .ok none }

/-- The groups of an answer, if there are any. -/
def groupList (answer : Answer) : List DeclGroup :=
  match answer.groups with
  | .ok (some groups) => groups
  | _ => []

/-- The names of all types that the answer declares. -/
def typeNames (answer : Answer) : List String :=
  answer.groupList.flatMap fun group => group.types.map (·.name)

/-- All imports of the answer. -/
def imports (answer : Answer) : List ImportDecl := answer.groupList.flatMap (·.imports)

end Answer

/-- The answers of a path in the order of its loads. -/
structure History where
  early : List Answer := []
  settled : Answer

namespace History

/-- The answer after `past` earlier loads. -/
def answer (history : History) (past : Nat) : Answer := history.early.getD past history.settled

/-- All answers that a load can get. -/
def answers (history : History) : List Answer := history.early ++ [history.settled]

end History

/-- Answers for every path. Only the listed paths can be located. -/
structure Loader where
  paths : List ImportPath
  history : ImportPath → History

namespace Loader

/-- The answer for a path that was loaded `past` times before. -/
def answer (loader : Loader) (path : ImportPath) (past : Nat) : Answer :=
  if loader.paths.contains path then (loader.history path).answer past else .notLocated

/-- All answers that a load of the path can get. -/
def answers (loader : Loader) (path : ImportPath) : List Answer :=
  if loader.paths.contains path then (loader.history path).answers else [.notLocated]

/-- A path always gets the same answer. -/
def Unchanging (loader : Loader) : Prop :=
  ∀ path past, loader.answer path past = loader.answer path 0

end Loader

/-! ## The journal of a run -/

/-- What happened in a run so far: the loaded paths and the notices, in order. -/
structure Journal where
  loads : List ImportPath := []
  notices : List Notice := []
deriving DecidableEq, Inhabited

/-- A step that reads units; its journal survives a failure. -/
abbrev Reading := ExceptT Failure (StateM Journal)

namespace Reading

/-- Reports notices. -/
def report (notices : List Notice) : Reading Unit :=
  modify fun journal => { journal with notices := journal.notices ++ notices }

end Reading

namespace Loader

open Reading

/-- Loads a unit and records the load. -/
def load (loader : Loader) (path : ImportPath) : Reading (Option (List DeclGroup)) := do
  let journal ← get
  let answer := loader.answer path (journal.loads.count path)
  set { journal with
    loads := journal.loads ++ [path]
    notices := journal.notices ++ answer.notices }
  match answer.groups with
  | .ok groups => pure groups
  | .error failure => throw failure

/-- Loads a unit for the group that stands for it. A located unit must have one. -/
def loadSelected (loader : Loader) (path : ImportPath) : Reading (Option DeclGroup) := do
  match ← loader.load path with
  | none => pure none
  | some groups =>
    match selectGroup groups with
    | some group => pure (some group)
    | none => throw (.noUsableGroup path)

end Loader

end ApiDocs
