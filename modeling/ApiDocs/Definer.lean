import ApiDocs.Resolution
import ApiDocs.Store

/-!
# Defining types

A stored definition is raw at first: its members have no targets and the types it embeds are not
merged. Defining it merges the members of what it embeds and gives every member its target, which
defines the target's type in turn. Each canonical name is defined once, so that types may refer to
themselves; a type met again while it is being defined is left as it is stored.

The steps take the definition of a stored name as an argument (`visit`), and `defineAll` closes the
recursion. Its first argument bounds the nesting: every level adds a name, and there are only as
many names as the units of the graph declare and the store holds already (`Definer.depth`).
-/

namespace ApiDocs

/-- The state of a run that defines types. -/
structure Definer where
  store : Store := .empty
  defined : List String := []
  journal : Journal := {}
deriving DecidableEq, Inhabited

/-- A step that defines types; its state survives a failure. -/
abbrev Defining := ExceptT Failure (StateM Definer)

namespace Defining

/-- A step that only reads units. -/
def reading {α : Type} (step : Reading α) : Defining α := fun state =>
  let (result, journal) := step state.journal
  (result, { state with journal })

/-- Adds a definition to the store. -/
def store (definition : Definition) : Defining Unit :=
  modify fun state => { state with store := state.store.add definition }

end Defining

namespace Scope

open Defining

/-- The stored definition that a type text names, resolved and stored first if need be. -/
def find (scope : Scope) (referring : ImportPath) (text : String) :
    Defining (Option Definition) := do
  match (← get).store.lookup scope.graph referring text with
  | some definition => pure (some definition)
  | none =>
    match ← reading (scope.resolve referring text) with
    | some definition =>
      Defining.store definition
      pure (some definition)
    | none => pure none

/-! ## Members -/

/-- Gives every scalar of the member that is not primitive its target, and defines the target's
type. -/
def targetMember (scope : Scope) (visit : String → Defining Unit) (referring : ImportPath) :
    Member → Defining Member
  | .scalar info typeText target =>
    if TypeText.isPrimitive typeText || target.isSome then pure (.scalar info typeText target)
    else do
      match ← scope.find referring typeText with
      | some definition =>
        visit definition.canonical
        pure (.scalar info typeText (some definition.target))
      | none => throw (.unresolvedType typeText info.name referring)
  | .collection info element => do
    return .collection info (← scope.targetMember visit referring element)
  | .mapping info key value => do
    let key ← scope.targetMember visit referring key
    return .mapping info key (← scope.targetMember visit referring value)

/-- The unit in which the types of a member are looked up. -/
def referringUnit (fallback : ImportPath) (member : Member) : ImportPath :=
  if member.info.origin.isEmpty then fallback else member.info.origin

/-- Gives all members of a definition in `path` their targets. -/
def targetMembers (scope : Scope) (visit : String → Defining Unit) (path : ImportPath) :
    Table Member → Defining (Table Member)
  | [] => pure []
  | (name, member) :: members => do
    let member ← scope.targetMember visit (referringUnit path member) member
    return (name, member) :: (← scope.targetMembers visit path members)

/-! ## Embedding -/

/-- Whether an embedded type text can have members: it is a name, and not of a primitive. -/
def isMergeable (text : String) : Bool :=
  match TypeText.shape text.toList with
  | .scalar bare => !TypeText.isPrimitive (.ofList bare)
  | _ => false

/-- Adds the members that the host does not have. -/
def mergeMembers (host : Table Member) (added : Table Member) : Table Member :=
  added.foldl (fun members entry =>
    if members.has entry.1 then members else members ++ [entry]) host

/-- Merges the members of one embedded type. -/
def mergeEmbedded (scope : Scope) (visit : String → Defining Unit) (host : Definition)
    (text : String) : Defining Definition := do
  if !isMergeable text then
    reading (Reading.report [.nothingToMerge text host.canonical])
    pure host
  else
    match ← scope.find host.importPath text with
    | none => throw (.unresolvedEmbedded host.canonical text)
    | some found =>
      visit found.canonical
      match (← get).store.get? found.canonical with
      | some source => pure { host with members := mergeMembers host.members source.members }
      | none => pure host

/-- Merges the members of embedded types in order. -/
def mergeAll (scope : Scope) (visit : String → Defining Unit) (host : Definition) :
    List String → Defining Definition
  | [] => pure host
  | text :: texts => do
    let host ← scope.mergeEmbedded visit host text
    scope.mergeAll visit host texts

/-- The definition with the members of all that it embeds. -/
def flattenWith (scope : Scope) (visit : String → Defining Unit) (definition : Definition) :
    Defining Definition :=
  scope.mergeAll visit { definition with embedded := [] } definition.embedded

/-! ## Closing the recursion -/

/-- Merges, targets and stores one definition. -/
def complete (scope : Scope) (visit : String → Defining Unit) (definition : Definition) :
    Defining Unit := do
  let merged ← scope.flattenWith visit definition
  let members ← scope.targetMembers visit merged.importPath merged.members
  Defining.store { merged with members }

/-- Defines a stored name that is not defined yet. -/
def defineAll (scope : Scope) : Nat → String → Defining Unit
  | bound, canonical => do
    let state ← get
    if state.defined.contains canonical then pure ()
    else
      match bound with
      | 0 => throw (.nestedTooDeep canonical)
      | bound + 1 =>
        set { state with defined := canonical :: state.defined }
        match state.store.get? canonical with
        | none => reading (Reading.report [.definitionNotStored canonical])
        | some definition => scope.complete (scope.defineAll bound) definition

/-- The canonical names of all types that a unit can declare. -/
def declaredNames (scope : Scope) (path : ImportPath) : List String :=
  (scope.loader.answers path).flatMap fun answer => answer.typeNames.map (canonicalName path)

/-- The canonical names of all types that the units of the graph can declare. -/
def names (scope : Scope) : List String := scope.graph.paths.flatMap scope.declaredNames

end Scope

namespace Definer

/-- How deeply definitions can be nested from this state on. -/
def depth (scope : Scope) (state : Definer) : Nat :=
  (scope.names ++ state.store.names).eraseDups.length + 1

/-- Gives a member its targets and defines their types. If this fails, a member that is changed in
place is left with the targets that were set until then. Here the failure is returned alone, and
only the state keeps what was done. -/
def defineMember (scope : Scope) (referring : ImportPath) (member : Member) :
    Defining Member := do
  let depth := depth scope (← get)
  scope.targetMember (scope.defineAll depth) referring member

/-- Defines a stored name. -/
def define (scope : Scope) (canonical : String) : Defining Unit := do
  let depth := depth scope (← get)
  scope.defineAll depth canonical

/-- Merges the members of what a definition embeds. If this fails, a definition that is changed in
place is left with no embedded texts and with the members that were merged until then. Here the
failure is returned alone, and only the state keeps what was done. -/
def flatten (scope : Scope) (definition : Definition) : Defining Definition := do
  let depth := depth scope (← get)
  scope.flattenWith (scope.defineAll depth) definition

end Definer

end ApiDocs
