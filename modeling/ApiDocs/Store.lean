import ApiDocs.Definition
import ApiDocs.UnitGraph

/-!
# The store of definitions

Definitions by canonical name, in ascending order; a store carries the proof that it is so.
`Store.lookup` answers a reference from the store alone and tries the candidate units in the order
of resolution.
-/

namespace ApiDocs

/-- Definitions that stand under their canonical names, in ascending order. -/
structure Store where
  definitions : Table Definition
  ascending : definitions.Ascending
  keyed : ∀ entry ∈ definitions, entry.2.canonical = entry.1
deriving DecidableEq

namespace Store

/-- The store without definitions. -/
def empty : Store where
  definitions := []
  ascending := List.Pairwise.nil
  keyed := List.forall_mem_nil _

instance : EmptyCollection Store := ⟨empty⟩

instance : Inhabited Store := ⟨empty⟩

/-- Adds a definition, in place of one with the same canonical name. -/
def add (store : Store) (definition : Definition) : Store where
  definitions := store.definitions.insert definition.canonical definition
  ascending := store.ascending.insert _ _
  keyed := by
    intro entry among
    rcases Table.mem_insert among with rfl | before
    · rfl
    · exact store.keyed entry before

/-- The definition of a canonical name. -/
def get? (store : Store) (canonical : String) : Option Definition :=
  store.definitions.get? canonical

/-- What is found under a name has this canonical name. -/
theorem canonical_of_get? {store : Store} {name : String} {definition : Definition}
    (known : store.get? name = some definition) : definition.canonical = name :=
  store.keyed (name, definition) (Table.mem_of_get? known)

/-- What is found under a name is found under its own canonical name. -/
theorem get?_canonical {store : Store} {name : String} {definition : Definition}
    (known : store.get? name = some definition) :
    store.get? definition.canonical = some definition := by
  rw [canonical_of_get? known]
  exact known

/-- The stored definition that a type text names when it stands in the unit `referring`. -/
def lookup (store : Store) (graph : UnitGraph) (referring : ImportPath) (text : String) :
    Option Definition :=
  let reference := TypeText.reference text
  (graph.candidates referring reference).findSome? fun path =>
    store.get? (canonicalName path reference.name)

/-- The canonical names in order. -/
def names (store : Store) : List String := store.definitions.keys

end Store

end ApiDocs
