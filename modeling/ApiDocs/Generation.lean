import ApiDocs.Definer
import ApiDocs.Directive.OfOperation
import ApiDocs.Document.OfOperations

/-!
# Generation

From a root unit to a document: load the units, read the directives in their comments, define all
types that operations mention, and describe everything.
-/

namespace ApiDocs

/-- What is documented and how. -/
structure Configuration where
  root : ImportPath := ""
  naming : Naming := .full
  ignore : List String := []
deriving DecidableEq, Inhabited

namespace Scope

/-- The comments of a unit's groups, tests aside. -/
def commentsOf (unit : ImportPath) (groups : List DeclGroup) : List CommentBlock :=
  (groups.filter (·.kind != .test)).flatMap fun group => group.comments.map (⟨unit, ·⟩)

/-- The comments of the units in order. -/
def commentsIn (loader : Loader) : List ImportPath → Reading (List CommentBlock)
  | [] => pure []
  | path :: paths => do
    let groups ← loader.load path
    return commentsOf path (groups.getD []) ++ (← commentsIn loader paths)

/-- The comments of all units in ascending order of their paths. -/
def comments (scope : Scope) : Reading (List CommentBlock) :=
  commentsIn scope.loader scope.graph.paths

end Scope

/-! ## Targets of operations -/

namespace Definer

/-- Targets the member of each part in order; `member` and `withMember` reach into a part. -/
def defineEach {α : Type} (scope : Scope) (unit : ImportPath) (member : α → Member)
    (withMember : α → Member → α) : List α → Defining (List α)
  | [] => pure []
  | part :: parts => do
    let defined ← defineMember scope unit (member part)
    return withMember part defined :: (← defineEach scope unit member withMember parts)

/-- Targets the members of an operation: its responses, then its parameters. -/
def defineOperation (scope : Scope) (o : Directive.Operation) : Defining Directive.Operation := do
  let responses ← defineEach scope o.unit (·.member) (fun r m => { r with member := m })
    o.responses
  let parameters ← defineEach scope o.unit (·.member) (fun p m => { p with member := m })
    o.parameters
  return { o with responses, parameters }

/-- Targets the members of all operations. -/
def defineOperations (scope : Scope) :
    List Directive.Operation → Defining (List Directive.Operation)
  | [] => pure []
  | o :: operations => do
    let defined ← defineOperation scope o
    return defined :: (← defineOperations scope operations)

end Definer

/-! ## Documents -/

/-- A run that defines types from an empty store, with the store that it leaves. -/
def Reading.defining {α : Type} (step : Defining α) : Reading (α × Store) := fun journal =>
  match step { journal } with
  | (.ok result, state) => (.ok (result, state.store), state.journal)
  | (.error failure, state) => (.error failure, state.journal)

/-- The operations that comments describe, with their groups. -/
def Directive.operations (api : Directive.Api) (blocks : List CommentBlock) :
    List Directive.Operation :=
  ((Directive.operationBlocks blocks).filterMap Directive.Operation.ofBlock?).map (·.tagged api)

/-- The notices of reading the operations of comments. -/
def Directive.operationNotices (blocks : List CommentBlock) : List Notice :=
  (Directive.operationBlocks blocks).flatMap Directive.Operation.blockNotices

/-- What a document describes: the interface, its operations, whose members have their targets, and
the definitions that they need. -/
structure Contents where
  api : Directive.Api
  operations : List Directive.Operation
  store : Store
deriving DecidableEq, Inhabited

namespace Contents

/-- The document that describes the contents. -/
def document (contents : Contents) (naming : Naming) : Document :=
  { (Document.ofApi contents.api).addAll naming contents.operations with
    definitions := contents.store.schemas naming }

/-- The notices of describing the contents. -/
def notices (contents : Contents) (naming : Naming) : List Notice :=
  (Document.ofApi contents.api).addAllNotices naming contents.operations
    ++ contents.store.schemaNotices

/-- Collects everything that can be reached from the root. -/
def collect (configuration : Configuration) (loader : Loader) : Reading Contents := do
  Reading.report [.loadingUnits configuration.root]
  let graph ← UnitGraph.load loader configuration.root configuration.ignore
  Reading.report [.loadedUnits graph.units.length]
  let scope : Scope := ⟨graph, loader⟩
  let blocks ← scope.comments
  let api := Directive.Api.ofBlocks (Directive.apiBlocks blocks)
  let operations := Directive.operations api blocks
  Reading.report (Directive.operationNotices blocks ++ [.foundOperations operations.length])
  let (operations, store) ← Reading.defining (Definer.defineOperations scope operations)
  Reading.report [.definedTypes store.definitions.length]
  return { api, operations, store }

end Contents

/-- Documents everything that can be reached from the root. -/
def generate (configuration : Configuration) (loader : Loader) : Reading Document := do
  let contents ← Contents.collect configuration loader
  Reading.report (contents.notices configuration.naming)
  return contents.document configuration.naming

end ApiDocs
