import ApiDocs.Number.Shortest
import ApiDocs.Table

/-!
# Values to be written

A document is turned into one tree of values, which the JSON and YAML writers print. Records keep
the order of their fields.
-/

namespace ApiDocs

/-- A number of a document: integers are written without a point. -/
inductive Numeral where
  | integer (n : Int)
  | float (x : Binary64)
deriving DecidableEq, Inhabited

namespace Numeral

/-- The numeral of a double-precision number: an integer where it is one of less than 64 bits,
nothing for an infinity or no number. -/
def ofBinary64? (x : Binary64) : Option Numeral :=
  match x with
  | .finite _ _ _ =>
    match x.truncate? with
    | some n =>
      if x.isIntegral && n.natAbs < Nat.pow 2 63 then some (.integer n) else some (.float x)
    | none => some (.float x)
  | _ => none

/-- The text of a numeral. -/
def write (format : FloatFormat) : Numeral → String
  | .integer n => toString n
  | .float x => x.write format

end Numeral

/-- A value to be written. -/
inductive Value where
  | null
  | text (s : String)
  | flag (b : Bool)
  | number (n : Numeral)
  | list (items : List Value)
  | record (fields : List (String × Value))
deriving Inhabited

namespace Value

/-! ## Equality -/

mutual

/-- Whether two values are the same. -/
def same : Value → Value → Bool
  | .null, .null => true
  | .text s, .text s' => s == s'
  | .flag b, .flag b' => b == b'
  | .number n, .number n' => n == n'
  | .list items, .list items' => sameItems items items'
  | .record fields, .record fields' => sameFields fields fields'
  | _, _ => false

/-- Whether two lists have the same items. -/
def sameItems : List Value → List Value → Bool
  | [], [] => true
  | item :: items, item' :: items' => same item item' && sameItems items items'
  | _, _ => false

/-- Whether two records have the same fields in the same order. -/
def sameFields : List (String × Value) → List (String × Value) → Bool
  | [], [] => true
  | (key, value) :: fields, (key', value') :: fields' =>
    key == key' && same value value' && sameFields fields fields'
  | _, _ => false

end

mutual

theorem same_iff : (a b : Value) → (same a b = true ↔ a = b)
  | .null, b => by cases b <;> simp [same]
  | .text _, b => by cases b <;> simp [same]
  | .flag _, b => by cases b <;> simp [same]
  | .number _, b => by cases b <;> simp [same]
  | .list items, b => by cases b <;> simp [same, sameItems_iff items]
  | .record fields, b => by cases b <;> simp [same, sameFields_iff fields]

theorem sameItems_iff : (a b : List Value) → (sameItems a b = true ↔ a = b)
  | [], b => by cases b <;> simp [sameItems]
  | item :: items, b => by cases b <;> simp [sameItems, same_iff item, sameItems_iff items]

theorem sameFields_iff : (a b : List (String × Value)) → (sameFields a b = true ↔ a = b)
  | [], b => by cases b <;> simp [sameFields]
  | (key, value) :: fields, b => by
    cases b with
    | nil => simp [sameFields]
    | cons field _ => cases field; simp [sameFields, same_iff value, sameFields_iff fields]

end

instance : DecidableEq Value := fun a b => decidable_of_iff _ (same_iff a b)

/-! ## Fields -/

/-- A field that is left out when there is no value for it. -/
def field? (key : String) (value : Option Value) : Table Value :=
  match value with
  | some value => [(key, value)]
  | none => []

/-- The fields of the entries that have a value. -/
def ofEntries (entries : Table (Option Value)) : Table Value :=
  entries.flatMap fun entry => field? entry.1 entry.2

/-- An integer. -/
def integer (n : Int) : Value := .number (.integer n)

/-- A list of texts. -/
def texts (items : List String) : Value := .list (items.map .text)

/-- A record with a field for each entry of a table. -/
def table {α : Type} (write : α → Value) (entries : Table α) : Value :=
  .record (entries.map fun entry => (entry.1, write entry.2))

/-- A list that is left out when it is empty. -/
def nonempty? {α : Type} (write : List α → Value) (items : List α) : Option Value :=
  if items.isEmpty then none else some (write items)

end Value

end ApiDocs
