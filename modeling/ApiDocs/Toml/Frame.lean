import ApiDocs.Table
import ApiDocs.Toml

/-!
# Tables under construction

A table comes into being in one of three ways: by its own header, on the way to a table further
below, or on the way of a dotted key. Which of them it was decides whether it may be extended, so
tables remember it until the document is complete.
-/

namespace ApiDocs.Toml

/-- What stands under a key while a document is read. -/
inductive Node where
  | value (value : Toml)
  /-- A table: whether it came into being on the way to another, and whether by a dotted key. -/
  | table (implicit dotted : Bool) (entries : List (String × Node))
  /-- The elements that repeated headers have made. -/
  | tables (elements : List (List (String × Node)))
deriving Inhabited

mutual

/-- The value that a node stands for. -/
def Node.toToml : Node → Toml
  | .value toml => toml
  | .table _ _ entries => .table (entriesToToml entries)
  | .tables elements => .list (elementsToToml elements)

/-- The entries that nodes stand for. -/
def Node.entriesToToml : List (String × Node) → List (String × Toml)
  | [] => []
  | (key, node) :: entries => (key, node.toToml) :: entriesToToml entries

/-- The elements that nodes stand for. -/
def Node.elementsToToml : List (List (String × Node)) → List Toml
  | [] => []
  | entries :: elements => .table (entriesToToml entries) :: elementsToToml elements

end

/-- A table under construction. -/
structure Frame where
  implicit : Bool := false
  dotted : Bool := false
  entries : Table Node := []
deriving Inhabited

namespace Frame

/-- The table as a node. -/
def toNode (frame : Frame) : Node := .table frame.implicit frame.dotted frame.entries

/-- The table as a value. -/
def toToml (frame : Frame) : Toml := frame.toNode.toToml

end Frame

/-- A change to a table under construction, with a result; nothing where it is not allowed. -/
abbrev Edit := StateT Frame Option

namespace Edit

variable {α : Type}

/-- Does something to the table that a path leads to. Tables on the way are made if they are
missing; the last element of repeated tables stands for all of them. A dotted key may not go
through a table with a header of its own. -/
def within (dotted : Bool) (edit : Edit α) : (path : List String) → Edit α
  | [] => edit
  | key :: path => do
    let frame ← get
    match frame.entries.get? key with
    | none =>
      let (result, child) ← (within dotted edit path).run { implicit := true, dotted }
      set { frame with entries := frame.entries ++ [(key, child.toNode)] }
      return result
    | some (.value _) => failure
    | some (.table childImplicit childDotted entries) =>
      if dotted && !childImplicit then failure
      let (result, child) ← (within dotted edit path).run ⟨childImplicit, childDotted, entries⟩
      set { frame with entries := frame.entries.set key child.toNode }
      return result
    | some (.tables elements) =>
      let last ← elements.getLast?
      let (result, child) ← (within dotted edit path).run { entries := last }
      set { frame with
        entries := frame.entries.set key (.tables (elements.dropLast ++ [child.entries])) }
      return result

/-- Puts a node under a key that is free. -/
def put (key : String) (node : Node) : Edit Unit := do
  let frame ← get
  if frame.entries.has key then failure
  set { frame with entries := frame.entries ++ [(key, node)] }

/-- Puts a value under a dotted key, given by its path and last part. -/
def define (path : List String) (key : String) (value : Toml) : Edit Unit :=
  within true (do
    if (← get).dotted = path.isEmpty then failure
    put key (.value value)) path

/-- Takes away the table under a key that came into being on the way to others, if there is one;
its entries. -/
def takeImplicit (key : String) : Edit (Table Node) := do
  let frame ← get
  match frame.entries.get? key with
  | none => return []
  | some (.table true false entries) =>
    set { frame with entries := frame.entries.erase key }
    return entries
  | some _ => failure

/-- Adds an element to the repeated tables under a key. -/
def putElement (key : String) (entries : Table Node) : Edit Unit := do
  let frame ← get
  match frame.entries.get? key with
  | none => put key (.tables [entries])
  | some (.tables elements) =>
    set { frame with entries := frame.entries.set key (.tables (elements ++ [entries])) }
  | some _ => failure

end Edit

/-! ## Documents -/

/-- Where the entries of a table go. -/
inductive Place where
  /-- The document itself. -/
  | document
  /-- The table under a key, below a path. -/
  | table (path : List String) (key : String)
  /-- One more element under a key, below a path. -/
  | element (path : List String) (key : String)
deriving Inhabited

/-- A document that is being read: what is complete, and the table that entries go to now. -/
structure Draft where
  complete : Frame := {}
  current : Frame := {}
  place : Place := .document
deriving Inhabited

namespace Draft

/-- The document with the current table in its place. -/
def close (draft : Draft) : Option Frame :=
  match draft.place with
  | .document => some draft.current
  | .table path key =>
    (Edit.within false (Edit.put key draft.current.toNode) path draft.complete).map Prod.snd
  | .element path key =>
    (Edit.within false (Edit.putElement key draft.current.entries) path draft.complete).map
      Prod.snd

/-- Begins a table by its header. -/
def openTable (path : List String) (key : String) (draft : Draft) : Option Draft := do
  let (entries, complete) ← Edit.within false (Edit.takeImplicit key) path (← draft.close)
  return { complete, current := { entries }, place := .table path key }

/-- Begins one more element by its header. -/
def openElement (path : List String) (key : String) (draft : Draft) : Option Draft := do
  return { complete := ← draft.close, place := .element path key }

/-- Puts a value under a dotted key of the current table. -/
def define (path : List String) (key : String) (value : Toml) (draft : Draft) : Option Draft := do
  let (_, current) ← Edit.define path key value draft.current
  return { draft with current }

end Draft

end ApiDocs.Toml
