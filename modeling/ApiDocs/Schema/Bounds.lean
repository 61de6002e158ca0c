import ApiDocs.Schema
import ApiDocs.Validation

/-!
# Bounds

The bounds that constraints put on counts, lengths and magnitudes. The keywords are applied one
after the other, the loose bounds first, then the exact values `len` and `eq`, then the strict
bounds, and each overwrites what those before it have set. So for each side the operand of the last
keyword that has one decides (`withItemBounds_eq`, `withLengthBounds_eq`, `withMagnitudeBounds_eq`).
A keyword whose operand cannot be read has no say.
-/

namespace ApiDocs

namespace Validation

/-- The count that `eq` demands of a collection. -/
def exactCount? (v : Validation) : Option Int :=
  (v.equals.bind fun operand => readInt64? operand.toList).map (max · 0)

/-- The number that `eq` demands. -/
def exactNumber? (v : Validation) : Option Binary64 :=
  v.equals.bind fun operand => Binary64.read? operand.toList

end Validation

namespace Schema

/-! ## Assignments -/

/-- Sets something to the operand of a keyword, if it has one. -/
def overwrite {α : Type} (schema : Schema) (operand? : Option α) (set : Schema → α → Schema) :
    Schema :=
  match operand? with
  | some operand => set schema operand
  | none => schema

/-- Sets the bound of a magnitude from below, which disappears if no document can hold it. -/
def setMinimum (strict : Bool) (schema : Schema) (value : Binary64) : Schema :=
  { schema with
    minimum := Numeral.ofBinary64? value
    exclusiveMinimum := if strict then some true else none }

/-- Sets the bound of a magnitude from above, which disappears if no document can hold it. -/
def setMaximum (strict : Bool) (schema : Schema) (value : Binary64) : Schema :=
  { schema with
    maximum := Numeral.ofBinary64? value
    exclusiveMaximum := if strict then some true else none }

/-- Bounds the number of items. -/
def withItemBounds (schema : Schema) (v : Validation) : Schema :=
  let schema := schema.overwrite v.min? fun s x => { s with minItems := some x.toCount }
  let schema := schema.overwrite v.max? fun s x => { s with maxItems := some x.toCount }
  let schema := schema.overwrite v.length? fun s x =>
    { s with minItems := some x.toCount, maxItems := some x.toCount }
  let schema := schema.overwrite v.exactCount? fun s n =>
    { s with minItems := some n, maxItems := some n }
  let schema := schema.overwrite v.above? fun s x =>
    { s with minItems := some (x.addInt 1).toCount }
  schema.overwrite v.below? fun s x => { s with maxItems := some (x.addInt (-1)).toCount }

/-- Bounds the length of a text; `eq` becomes a pattern. -/
def withLengthBounds (schema : Schema) (v : Validation) : Schema :=
  let schema := schema.overwrite v.min? fun s x => { s with minLength := some x.toCount }
  let schema := schema.overwrite v.max? fun s x => { s with maxLength := some x.toCount }
  let schema := schema.overwrite v.length? fun s x =>
    { s with minLength := some x.toCount, maxLength := some x.toCount }
  let schema := schema.overwrite v.equals fun s text => { s with pattern := some text }
  let schema := schema.overwrite v.above? fun s x =>
    { s with minLength := some (x.addInt 1).toCount }
  schema.overwrite v.below? fun s x => { s with maxLength := some (x.addInt (-1)).toCount }

/-- Bounds the magnitude of a number. -/
def withMagnitudeBounds (schema : Schema) (v : Validation) : Schema :=
  let schema := schema.overwrite v.min? (setMinimum false)
  let schema := schema.overwrite v.max? (setMaximum false)
  let schema := schema.overwrite v.length? fun s x => (s.setMinimum false x).setMaximum false x
  let schema := schema.overwrite v.exactNumber? fun s x =>
    (s.setMinimum false x).setMaximum false x
  let schema := schema.overwrite v.above? (setMinimum true)
  schema.overwrite v.below? (setMaximum true)

end Schema

/-! ## What the assignments leave -/

namespace Validation

/-- The smallest count of a strict, exact or loose bound; `demanded` is what `eq` gives. -/
def leastCount? (v : Validation) (demanded : Option Int) : Option Int :=
  (v.above?.map fun x => (x.addInt 1).toCount).or
    (demanded.or ((v.length?.map Binary64.toCount).or (v.min?.map Binary64.toCount)))

/-- The greatest count of a strict, exact or loose bound; `demanded` is what `eq` gives. -/
def greatestCount? (v : Validation) (demanded : Option Int) : Option Int :=
  (v.below?.map fun x => (x.addInt (-1)).toCount).or
    (demanded.or ((v.length?.map Binary64.toCount).or (v.max?.map Binary64.toCount)))

/-- A bound on a magnitude. -/
structure Limit where
  value : Binary64
  strict : Bool
deriving DecidableEq

/-- The bound from below. -/
def lowerLimit? (v : Validation) : Option Limit :=
  (v.above?.map (⟨·, true⟩)).or
    ((v.exactNumber?.or (v.length?.or v.min?)).map (⟨·, false⟩))

/-- The bound from above. -/
def upperLimit? (v : Validation) : Option Limit :=
  (v.below?.map (⟨·, true⟩)).or
    ((v.exactNumber?.or (v.length?.or v.max?)).map (⟨·, false⟩))

/-- The number of a limit, if a document can hold it. -/
def Limit.numeral? (limit : Limit) : Option Numeral := Numeral.ofBinary64? limit.value

/-- The mark of a strict limit. -/
def Limit.mark? (limit : Limit) : Option Bool := if limit.strict then some true else none

end Validation

namespace Schema

variable (schema : Schema) (v : Validation)

/-- Later assignments win: each bound is that of the strongest keyword. -/
theorem withItemBounds_eq :
    schema.withItemBounds v = { schema with
      minItems := (v.leastCount? v.exactCount?).or schema.minItems
      maxItems := (v.greatestCount? v.exactCount?).or schema.maxItems } := by
  unfold withItemBounds Validation.leastCount? Validation.greatestCount?
  cases schema
  cases v.min? <;> cases v.max? <;> cases v.length? <;> cases v.exactCount? <;>
    cases v.above? <;> cases v.below? <;> rfl

theorem withLengthBounds_eq :
    schema.withLengthBounds v = { schema with
      minLength := (v.leastCount? none).or schema.minLength
      maxLength := (v.greatestCount? none).or schema.maxLength
      pattern := v.equals.or schema.pattern } := by
  unfold withLengthBounds Validation.leastCount? Validation.greatestCount?
  cases schema
  cases v.min? <;> cases v.max? <;> cases v.length? <;> cases v.equals <;>
    cases v.above? <;> cases v.below? <;> rfl

/-- A limit sets both the number and the mark of its side. Without one both stay as they are. -/
theorem withMagnitudeBounds_eq :
    schema.withMagnitudeBounds v = { schema with
      minimum := v.lowerLimit?.elim schema.minimum (·.numeral?)
      exclusiveMinimum := v.lowerLimit?.elim schema.exclusiveMinimum (·.mark?)
      maximum := v.upperLimit?.elim schema.maximum (·.numeral?)
      exclusiveMaximum := v.upperLimit?.elim schema.exclusiveMaximum (·.mark?) } := by
  unfold withMagnitudeBounds Validation.lowerLimit? Validation.upperLimit?
  cases schema
  cases v.min? <;> cases v.max? <;> cases v.length? <;> cases v.exactNumber? <;>
    cases v.above? <;> cases v.below? <;> rfl

end Schema

end ApiDocs
