import ApiDocs.Proofs.Member
import ApiDocs.Proofs.Number.Integers
import ApiDocs.Proofs.Source.Validation
import ApiDocs.Schema.OfDefinition

/-!
# Bounds from constraints

Counts, lengths and magnitudes are bounded on two sides (`Side`), each by the first of its keywords
that has something to say: the strict one, `eq`, `len`, the loose one and its substitute.
`bounds_follow_precedence` gives the bounds that an expression of whole numbers puts on a member, in
integers alone.

A number that is infinite or none at all can be read, but no document can hold it. Such an operand
decides like any other, so that it takes the bound away from those after it and, under a strict
keyword, leaves a mark without a bound. `exclusive_marks` says when this happens, at every node of a
member's schema.
-/

namespace ApiDocs

/-! ## Sides -/

/-- The two sides on which bounds stand. -/
inductive Side where
  | lower
  | upper

namespace Side

/-- The keyword of strict bounds. -/
def strict : Side → String
  | .lower => "gt"
  | .upper => "lt"

/-- The keyword of loose bounds. -/
def loose : Side → String
  | .lower => "min"
  | .upper => "max"

/-- The keyword that stands in for that of loose bounds. -/
def substitute : Side → String
  | .lower => "gte"
  | .upper => "lte"

/-- The keywords that bound the side, the strongest first. -/
def keywords (side : Side) : List String :=
  [side.strict, "eq", "len", side.loose, side.substitute]

/-- From a strict bound on a count to the nearest count that keeps it. -/
def step : Side → Int
  | .lower => 1
  | .upper => -1

/-- The bound on the number of items. -/
def itemCount (side : Side) (schema : Schema) : Option Int :=
  match side with
  | .lower => schema.minItems
  | .upper => schema.maxItems

/-- The bound on the length of a text. -/
def textLength (side : Side) (schema : Schema) : Option Int :=
  match side with
  | .lower => schema.minLength
  | .upper => schema.maxLength

/-- The bound on a magnitude. -/
def magnitude (side : Side) (schema : Schema) : Option Numeral :=
  match side with
  | .lower => schema.minimum
  | .upper => schema.maximum

/-- The mark that the bound on a magnitude is strict. -/
def mark (side : Side) (schema : Schema) : Option Bool :=
  match side with
  | .lower => schema.exclusiveMinimum
  | .upper => schema.exclusiveMaximum

end Side

/-! ## Deciding keywords -/

theorem findSome?_cons_eq_or {α β : Type} (f : α → Option β) (a : α) (rest : List α) :
    (a :: rest).findSome? f = (f a).or (rest.findSome? f) := by
  rw [List.findSome?_cons]
  cases f a <;> rfl

namespace Validation

/-- The count that bounds a side; `demanded` is the one that `eq` gives. -/
def count? (v : Validation) (side : Side) (demanded : Option Int) : Option Int :=
  match side with
  | .lower => v.leastCount? demanded
  | .upper => v.greatestCount? demanded

/-- The limit on a side. -/
def limit? (v : Validation) (side : Side) : Option Limit :=
  match side with
  | .lower => v.lowerLimit?
  | .upper => v.upperLimit?

variable (v : Validation) (side : Side)

/-- The assignments in the terms of a side: the first of its keywords that has a number decides. -/
theorem count?_eq (demanded : Option Int) :
    v.count? side demanded =
      ((v.number? side.strict).map fun x => (x.addInt side.step).toCount).or
        (demanded.or
          ((["len", side.loose, side.substitute].findSome? v.number?).map Binary64.toCount)) := by
  simp only [findSome?_cons_eq_or, List.findSome?_nil, Option.or_none]
  rw [Option.map_or]
  cases side with
  | lower => rfl
  | upper => rfl

/-- A count is bounded if any of the keywords has something to say. -/
theorem isSome_count?_iff (demanded : Option Int) :
    (v.count? side demanded).isSome = true ↔ demanded.isSome = true ∨
      ∃ keyword ∈ [side.strict, "len", side.loose, side.substitute],
        (v.number? keyword).isSome = true := by
  rw [List.exists_mem_cons_iff, ← List.findSome?_isSome_iff, count?_eq, Option.isSome_or,
    Option.isSome_or, Option.isSome_map, Option.isSome_map, Bool.or_eq_true, Bool.or_eq_true]
  exact or_left_comm

/-- The limit of a side is that of the strict keyword, or else the first loose one. -/
theorem limit?_eq :
    v.limit? side =
      ((v.number? side.strict).map (⟨·, true⟩)).or
        ((["eq", "len", side.loose, side.substitute].findSome? v.number?).map (⟨·, false⟩)) := by
  simp only [findSome?_cons_eq_or, List.findSome?_nil, Option.or_none]
  cases side with
  | lower => rfl
  | upper => rfl

/-- The bound on a magnitude is the number of the first keyword that has one. -/
theorem numeral?_limit? :
    (v.limit? side).bind Limit.numeral? =
      (side.keywords.findSome? v.number?).bind Numeral.ofBinary64? := by
  rw [limit?_eq, Side.keywords, findSome?_cons_eq_or _ side.strict]
  cases v.number? side.strict with
  | some x => rfl
  | none => exact Option.bind_map

/-- The bound is marked if the strict keyword has a number. -/
theorem mark?_limit? :
    (v.limit? side).bind Limit.mark? = (v.number? side.strict).map fun _ => true := by
  rw [limit?_eq]
  cases v.number? side.strict with
  | some x => rfl
  | none => cases ["eq", "len", side.loose, side.substitute].findSome? v.number? <;> rfl

end Validation

/-! ## Members by what is bounded -/

namespace Member

/-- Whether the member has items to be counted. -/
def hasItems : Member → Bool
  | .scalar _ _ _ => false
  | .collection _ _ => true
  | .mapping _ _ _ => true

/-- The primitive that a scalar stands for. -/
def primitive? : Member → Option TypeText.Primitive
  | .scalar _ typeText _ => TypeText.primitive? typeText
  | .collection _ _ => none
  | .mapping _ _ _ => none

variable {m : Member} (naming : Naming) (side : Side)

/-- The number of items is bounded by the keywords of the member, at its own layer only. -/
theorem itemCount_schema (counted : m.hasItems = true) :
    side.itemCount (m.schema naming) =
      m.info.validation.count? side m.info.validation.exactCount? := by
  cases m with
  | scalar info typeText target => cases counted
  | collection info element =>
      rw [schema, Schema.withItemBounds_eq]
      cases side <;> exact Option.or_none
  | mapping info key value =>
      rw [schema, Schema.withItemBounds_eq]
      cases side <;> exact Option.or_none

/-- A scalar that stands for a primitive has the schema of the primitive, with its bounds. -/
theorem schema_of_primitive {p : TypeText.Primitive} (stands : m.primitive? = some p) :
    m.schema naming = (Schema.ofBoundedPrimitive p m.info.validation).annotated m.info := by
  cases m with
  | scalar info typeText target =>
      have primitive : TypeText.primitive? typeText = some p := stands
      rw [schema, scalarSchema, primitive]
      rfl
  | collection info element => cases stands
  | mapping info key value => cases stands

/-- The length of a text is bounded without regard to `eq`, which becomes its pattern. -/
theorem textLength_schema (text : m.primitive?.map (·.kind) = some "string") :
    side.textLength (m.schema naming) = m.info.validation.count? side none ∧
      (m.schema naming).pattern = m.info.validation.equals := by
  obtain ⟨p, stands, kind⟩ := Option.map_eq_some_iff.mp text
  rw [schema_of_primitive naming stands, Schema.ofBoundedPrimitive, if_pos kind,
    Schema.withLengthBounds_eq]
  cases side <;> exact ⟨Option.or_none, Option.or_none⟩

/-- A magnitude has the number and the mark of its limit. -/
theorem magnitude_schema (numeric : m.primitive?.map (·.isNumeric) = some true) :
    side.magnitude (m.schema naming) = (m.info.validation.limit? side).bind (·.numeral?) ∧
      side.mark (m.schema naming) = (m.info.validation.limit? side).bind (·.mark?) := by
  obtain ⟨p, stands, number⟩ := Option.map_eq_some_iff.mp numeric
  have noText : ¬ p.kind = "string" := by
    intro text
    rw [TypeText.Primitive.isNumeric, text] at number
    cases number
  rw [schema_of_primitive naming stands, Schema.ofBoundedPrimitive, if_neg noText, if_pos number,
    Schema.withMagnitudeBounds_eq]
  cases side with
  | lower =>
      rw [Validation.limit?]
      cases m.info.validation.lowerLimit? <;> exact ⟨rfl, rfl⟩
  | upper =>
      rw [Validation.limit?]
      cases m.info.validation.upperLimit? <;> exact ⟨rfl, rfl⟩

end Member

/-! ## Whole numbers -/

namespace Validation

/-- The operand of the last part of an expression for a keyword. -/
def operand? (expression keyword : String) : Option String :=
  Table.latest? (spelled expression.toList) keyword

/-- The whole number that the last part for a keyword gives. -/
def whole? (expression keyword : String) : Option Int :=
  (operand? expression keyword).bind fun operand => wholeNumber? operand.toList

/-- Whether the operand of a keyword is no number or a whole number of at most 53 binary digits. -/
def isPlain (expression keyword : String) : Bool :=
  (operand? expression keyword).all fun operand =>
    (Binary64.read? operand.toList).isNone ||
      (wholeNumber? operand.toList).any fun n => n.natAbs < Nat.pow 2 53

/-- A number that is a whole number of at most 53 binary digits. -/
def Stands (x : Binary64) (n : Int) : Prop := x.IsInteger n ∧ n.natAbs < Nat.pow 2 53

namespace Stands

variable {x : Binary64} {n : Int} (stands : Stands x n)

include stands

/-- One step from a whole number of at most 53 digits is exact, so the count is computed in
integers. -/
theorem toCount_addInt {m : Int} (near : m.natAbs ≤ 1) : (x.addInt m).toCount = max (n + m) 0 := by
  obtain ⟨isInteger, small⟩ := stands
  have bound : Nat.pow 2 53 = 9007199254740992 := rfl
  have range : Binary64.int64Range.2 = 9223372036854775807 := rfl
  have fits : (n + m).natAbs ≤ Binary64.mantissaBound := by
    rw [Binary64.mantissaBound]
    omega
  refine Binary64.toCount_of_isInteger (Binary64.addInt_of_isInteger isInteger fits) ?_
  omega

theorem toCount_eq : x.toCount = max n 0 := by
  obtain ⟨isInteger, small⟩ := stands
  have bound : Nat.pow 2 53 = 9007199254740992 := rfl
  have range : Binary64.int64Range.2 = 9223372036854775807 := rfl
  exact Binary64.toCount_of_isInteger isInteger (by omega)

theorem ofBinary64?_eq : Numeral.ofBinary64? x = some (.integer n) :=
  Binary64.ofBinary64?_of_isInteger stands.1 (Nat.lt_of_lt_of_le stands.2 (by decide))

end Stands

theorem map_eq_of_rel {α β γ : Type} {related : α → β → Prop} {a : Option α} {b : Option β}
    (rel : Option.Rel related a b) {f : α → γ} {g : β → γ}
    (same : ∀ x y, related x y → f x = g y) : a.map f = b.map g := by
  cases rel with
  | some here => exact congrArg some (same _ _ here)
  | none => rfl

section

variable {expression : String}

/-- A plain operand is read as the number that stands for it, if it is one. -/
theorem number?_of_isPlain {keyword : String} (plain : isPlain expression keyword = true) :
    Option.Rel Stands ((read expression).number? keyword) (whole? expression keyword) := by
  rw [number?, get?_read, whole?, operand?]
  rw [isPlain, operand?] at plain
  cases given : Table.latest? (spelled expression.toList) keyword with
  | none => exact .none
  | some operand =>
      rw [given, Option.all_some, Bool.or_eq_true] at plain
      rw [Option.bind_some, Option.bind_some]
      cases whole : wholeNumber? operand.toList with
      | none =>
          rw [whole] at plain
          have refused := plain.resolve_right (by simp)
          rw [Option.isNone_iff_eq_none.mp refused]
          exact .none
      | some n =>
          obtain ⟨x, reads, exact_⟩ := Binary64.exists_read?_of_wholeNumber? whole
          rw [whole, reads] at plain
          have small := of_decide_eq_true (plain.resolve_left (by simp))
          rw [reads]
          exact .some ⟨exact_ small.le, small⟩

/-- The first plain operand among some keywords is the first whole number among them. -/
theorem findSome?_of_isPlain {keywords : List String}
    (plain : ∀ keyword ∈ keywords, isPlain expression keyword = true) :
    Option.Rel Stands (keywords.findSome? (read expression).number?)
      (keywords.findSome? (whole? expression)) := by
  induction keywords with
  | nil => exact .none
  | cons keyword rest ih =>
      rw [List.findSome?_cons, List.findSome?_cons]
      have here := number?_of_isPlain (plain keyword List.mem_cons_self)
      generalize (read expression).number? keyword = number at here ⊢
      generalize whole? expression keyword = whole at here ⊢
      cases here with
      | some stands => exact .some stands
      | none => exact ih fun other later => plain other (List.mem_cons_of_mem _ later)

/-- The count on a side, in integers: the strict bound a step further, what `eq` demands, and the
other keywords in order, each cut at zero. -/
theorem count?_of_isPlain (side : Side) (demanded : Option Int)
    (plain : ∀ keyword ∈ [side.strict, "len", side.loose, side.substitute],
      isPlain expression keyword = true) :
    (read expression).count? side (demanded.map (max · 0)) =
      ([(whole? expression side.strict).map (· + side.step), demanded, whole? expression "len",
        whole? expression side.loose, whole? expression side.substitute].findSome? id).map
          (max · 0) := by
  obtain ⟨plainStrict, plainRest⟩ := List.forall_mem_cons.mp plain
  have strict : ((read expression).number? side.strict).map
      (fun x => (x.addInt side.step).toCount) =
        ((whole? expression side.strict).map (· + side.step)).map (max · 0) := by
    rw [Option.map_map]
    refine map_eq_of_rel (number?_of_isPlain plainStrict) fun x n stands => ?_
    exact stands.toCount_addInt (by cases side <;> decide)
  have others : (["len", side.loose, side.substitute].findSome? (read expression).number?).map
      Binary64.toCount =
        (["len", side.loose, side.substitute].findSome? (whole? expression)).map (max · 0) :=
    map_eq_of_rel (findSome?_of_isPlain plainRest) fun x n stands => stands.toCount_eq
  rw [count?_eq, strict, others]
  simp only [findSome?_cons_eq_or, List.findSome?_nil, Option.or_none, id, Option.map_or]

/-- The bound on a magnitude, in integers. -/
theorem numeral?_of_isPlain (side : Side)
    (plain : ∀ keyword ∈ side.keywords, isPlain expression keyword = true) :
    ((read expression).limit? side).bind Limit.numeral? =
        (side.keywords.findSome? (whole? expression)).map .integer ∧
      ((read expression).limit? side).bind Limit.mark? =
        (whole? expression side.strict).map fun _ => true := by
  rw [numeral?_limit?, mark?_limit?]
  constructor
  · have decided := findSome?_of_isPlain plain
    generalize side.keywords.findSome? (read expression).number? = number at decided ⊢
    generalize side.keywords.findSome? (whole? expression) = whole at decided ⊢
    cases decided with
    | some stands => exact stands.ofBinary64?_eq
    | none => rfl
  · exact map_eq_of_rel (number?_of_isPlain (plain side.strict List.mem_cons_self)) fun _ _ _ => rfl

/-- What `eq` demands of a collection is a 64-bit integer. -/
theorem exactCount?_read (expression : String) :
    (read expression).exactCount? =
      ((whole? expression "eq").filter fun n =>
        -9223372036854775808 ≤ n ∧ n ≤ 9223372036854775807).map (max · 0) := by
  rw [exactCount?, equals, get?_read, whole?, operand?]
  cases Table.latest? (spelled expression.toList) "eq" with
  | none => rfl
  | some operand =>
      rw [Option.bind_some, Option.bind_some, readInt64?_eq]
      rfl

end

end Validation

/-- The bounds that an expression puts on a side of a member, where its numeric operands are no
numbers or whole numbers of at most 53 binary digits. -/
theorem bounds_follow_precedence (naming : Naming) (side : Side) (m : Member) (expression : String)
    (constrained : m.info.validation = .read expression)
    (plain : ∀ keyword ∈ ["len", "min", "gte", "max", "lte", "gt", "lt"],
      Validation.isPlain expression keyword = true) :
    let value := Validation.whole? expression
    let demanded := (value "eq").filter fun n =>
      -9223372036854775808 ≤ n ∧ n ≤ 9223372036854775807
    (m.hasItems = true → side.itemCount (m.schema naming) =
      ([(value side.strict).map (· + side.step), demanded, value "len", value side.loose,
        value side.substitute].findSome? id).map (max · 0)) ∧
    (m.primitive?.map (·.kind) = some "string" →
      side.textLength (m.schema naming) =
        ([(value side.strict).map (· + side.step), value "len", value side.loose,
          value side.substitute].findSome? id).map (max · 0) ∧
      (m.schema naming).pattern = Validation.operand? expression "eq") ∧
    (m.primitive?.map (·.isNumeric) = some true → Validation.isPlain expression "eq" = true →
      side.magnitude (m.schema naming) =
        ([value side.strict, value "eq", value "len", value side.loose,
          value side.substitute].findSome? id).map .integer ∧
      side.mark (m.schema naming) = (value side.strict).map fun _ => true) := by
  intro value demanded
  have plainCounts : ∀ keyword ∈ [side.strict, "len", side.loose, side.substitute],
      Validation.isPlain expression keyword = true := by
    have bounding : [side.strict, "len", side.loose, side.substitute] ⊆
        ["len", "min", "gte", "max", "lte", "gt", "lt"] := by cases side <;> decide
    exact fun keyword among => plain keyword (bounding among)
  refine ⟨fun counted => ?_, fun text => ?_, fun numeric plainEq => ?_⟩
  · rw [Member.itemCount_schema naming side counted, constrained, Validation.exactCount?_read]
    exact Validation.count?_of_isPlain side demanded plainCounts
  · obtain ⟨length, pattern⟩ := Member.textLength_schema naming side text
    rw [length, pattern, constrained]
    refine ⟨?_, Validation.get?_read expression "eq"⟩
    simpa only [findSome?_cons_eq_or, List.findSome?_nil, id, Option.none_or, Option.map_none] using
      Validation.count?_of_isPlain side none plainCounts
  · obtain ⟨magnitude, mark⟩ := Member.magnitude_schema naming side numeric
    rw [magnitude, mark, constrained]
    obtain ⟨plainStrict, plainRest⟩ := List.forall_mem_cons.mp plainCounts
    simpa only [Side.keywords, findSome?_cons_eq_or, List.findSome?_nil, id] using
      Validation.numeral?_of_isPlain side (List.forall_mem_cons.mpr
        ⟨plainStrict, List.forall_mem_cons.mpr ⟨plainEq, plainRest⟩⟩)

/-- Constraints in which most keywords are overruled, given twice or without a number. -/
def crowdedExpression : String := " max = 8,len=x, min=-3,gt = 2 ,lt=oops,eq=5,,gte=9,min=4,exact"

/-- The items, the text and the number that are constrained so. -/
def crowdedMember (typeText : String) : Member :=
  .ofTypeText typeText.toList { name := "crowded", validation := .read crowdedExpression }

set_option maxRecDepth 10000 in
/-- What the keywords of the crowded expression give, found in one go. -/
theorem crowdedExpression_read :
    let keywords := ["eq", "len", "min", "gte", "max", "lte", "gt", "lt"]
    keywords.map (Validation.whole? crowdedExpression) =
        [some 5, none, some 4, some 9, some 8, none, some 2, none] ∧
      (∀ keyword ∈ keywords, Validation.isPlain crowdedExpression keyword = true) ∧
      Validation.operand? crowdedExpression "eq" = some "5" := by
  decide +kernel

/-- Of the many keywords the strict one decides from below. From above `lt` has no number, so `eq`
decides the items and `max` the length. -/
theorem bounds_follow_precedence_crowded :
    (∀ keyword ∈ ["eq", "len", "min", "gte", "max", "lte", "gt", "lt"],
      Validation.isPlain crowdedExpression keyword = true) ∧
    Side.lower.itemCount ((crowdedMember "[]i64").schema .full) = some 3 ∧
    Side.upper.itemCount ((crowdedMember "map[String]i64").schema .full) = some 5 ∧
    Side.upper.textLength ((crowdedMember "String").schema .full) = some 8 ∧
    ((crowdedMember "String").schema .full).pattern = some "5" ∧
    Side.lower.magnitude ((crowdedMember "i64").schema .full) = some (.integer 2) ∧
    Side.lower.mark ((crowdedMember "i64").schema .full) = some true := by
  obtain ⟨values, plain, pattern⟩ := crowdedExpression_read
  simp only [List.map_cons, List.map_nil, List.cons.injEq, and_true] at values
  obtain ⟨eq, len, _, _, max, lte, gt, lt⟩ := values
  obtain ⟨plainEq, plainRest⟩ := List.forall_mem_cons.mp plain
  have follows := fun side text => bounds_follow_precedence .full side (crowdedMember text)
    crowdedExpression (by rw [crowdedMember, Member.info_ofTypeText]) plainRest
  have lowerItems := (follows .lower "[]i64").1 (by decide +kernel)
  have upperItems := (follows .upper "map[String]i64").1 (by decide +kernel)
  have text := (follows .upper "String").2.1 (by decide +kernel)
  have number := (follows .lower "i64").2.2 (by decide +kernel) plainEq
  simp only [Side.strict, Side.loose, Side.step, eq, len, max, gt, lt, pattern]
    at lowerItems upperItems text number
  exact ⟨plain, lowerItems, upperItems, text.1, text.2, number⟩

/-! ## Marks without bounds -/

/-- Whether the number is finite. -/
def Binary64.isFinite : Binary64 → Bool
  | .finite _ _ _ => true
  | _ => false

/-- A document can hold exactly the finite numbers. -/
theorem Numeral.ofBinary64?_eq_none_iff {x : Binary64} :
    ofBinary64? x = none ↔ x.isFinite = false := by
  cases x with
  | nan => exact ⟨fun _ => rfl, fun _ => rfl⟩
  | infinite negative => exact ⟨fun _ => rfl, fun _ => rfl⟩
  | finite negative mantissa exponent =>
      refine ⟨fun gone => ?_, nofun⟩
      rw [ofBinary64?] at gone
      split at gone
      · split at gone <;> cases gone
      · cases gone

namespace Validation

variable (v : Validation) (side : Side)

/-- A bound is missing if no keyword has a number, or the one that decides has one that no document
can hold. -/
theorem numeral?_limit?_eq_none_iff :
    (v.limit? side).bind Limit.numeral? = none ↔
      ∀ x, side.keywords.findSome? v.number? = some x → x.isFinite = false := by
  rw [numeral?_limit?, Option.bind_eq_none_iff]
  exact forall₂_congr fun x _ => Numeral.ofBinary64?_eq_none_iff

/-- The mark stands alone if the strict keyword, which decides before all others, gives a number
that no document can hold. -/
theorem mark_alone_iff :
    ((v.limit? side).bind Limit.mark?).isSome = true ∧ (v.limit? side).bind Limit.numeral? = none ↔
      ∃ x, v.number? side.strict = some x ∧ x.isFinite = false := by
  rw [mark?_limit?, Option.isSome_map, numeral?_limit?_eq_none_iff, Side.keywords,
    findSome?_cons_eq_or]
  constructor
  · rintro ⟨marked, gone⟩
    obtain ⟨x, given⟩ := Option.isSome_iff_exists.mp marked
    rw [given, Option.some_or] at gone
    exact ⟨x, given, gone x rfl⟩
  · rintro ⟨x, given, infinite⟩
    rw [given, Option.some_or]
    refine ⟨rfl, fun y same => ?_⟩
    cases same
    exact infinite

/-- If all numbers are finite, none of them is lost. -/
theorem isSome_numeral?_limit? {v : Validation} {side : Side}
    (finite : ∀ keyword ∈ side.keywords, ∀ x, v.number? keyword = some x → x.isFinite = true)
    {keyword : String} (among : keyword ∈ side.keywords)
    (given : (v.number? keyword).isSome = true) :
    ((v.limit? side).bind Limit.numeral?).isSome = true := by
  obtain ⟨x, decides⟩ := Option.isSome_iff_exists.mp
    (List.findSome?_isSome_iff.mpr ⟨keyword, among, given⟩)
  obtain ⟨before, decisive, after, split, here, _⟩ := List.findSome?_eq_some_iff.mp decides
  by_contra gone
  have lost := (v.numeral?_limit?_eq_none_iff side).mp (Option.not_isSome_iff_eq_none.mp gone) x
    decides
  rw [finite decisive (by simp [split]) x here] at lost
  cases lost

end Validation

/-- A schema and all schemas inside it. -/
inductive Schema.Inside (node : Schema) : Schema → Prop
  | self : Inside node node
  | property {schema inner : Schema} {members : Table Schema} {name : String} :
    schema.properties = some members → (name, inner) ∈ members → Inside node inner →
    Inside node schema
  | items {schema inner : Schema} :
    schema.items = some inner → Inside node inner → Inside node schema
  | additional {schema inner : Schema} :
    schema.additional = some inner → Inside node inner → Inside node schema

/-- Where nothing is inside a schema but perhaps items or additional properties. -/
theorem Schema.Inside.of_properties_eq_none {node schema : Schema} (inside : node.Inside schema)
    (plain : schema.properties = none) :
    node = schema ∨ (∃ inner, schema.items = some inner ∧ node.Inside inner) ∨
      ∃ inner, schema.additional = some inner ∧ node.Inside inner := by
  cases inside with
  | self => exact Or.inl rfl
  | property has _ _ =>
      rw [plain] at has
      cases has
  | items has within => exact Or.inr (Or.inl ⟨_, has, within⟩)
  | additional has within => exact Or.inr (Or.inr ⟨_, has, within⟩)

namespace Member

/-- The member and the layers inside it that are described. The keys of a map are not. -/
def layers : Member → List Member
  | .scalar info typeText target => [.scalar info typeText target]
  | .collection info element => .collection info element :: element.layers
  | .mapping info key value => .mapping info key value :: value.layers

/-- Whether the member is a scalar with a magnitude. -/
def IsNumeric (m : Member) : Prop := m.primitive?.map (·.isNumeric) = some true

variable {m : Member} {naming : Naming} {node : Schema}

/-- Nothing but numbers has bounds on its magnitude. -/
theorem unbounded_of_not_numeric (other : ¬ m.IsNumeric) (side : Side) :
    side.magnitude (m.schema naming) = none ∧ side.mark (m.schema naming) = none := by
  cases m with
  | collection info element =>
      rw [schema, Schema.withItemBounds_eq]
      cases side <;> exact ⟨rfl, rfl⟩
  | mapping info key value =>
      rw [schema, Schema.withItemBounds_eq]
      cases side <;> exact ⟨rfl, rfl⟩
  | scalar info typeText target =>
      rw [schema, scalarSchema]
      cases primitive : TypeText.primitive? typeText with
      | none =>
          dsimp only
          split <;> cases side <;> exact ⟨rfl, rfl⟩
      | some p =>
          rw [IsNumeric, primitive?, primitive] at other
          dsimp only
          rw [Schema.ofBoundedPrimitive]
          split
          · rw [Schema.withLengthBounds_eq]
            cases side <;> exact ⟨rfl, rfl⟩
          · rw [if_neg fun numeric => other (congrArg some numeric)]
            cases side <;> exact ⟨rfl, rfl⟩

theorem self_mem_layers (m : Member) : m ∈ m.layers := by
  cases m <;> exact List.mem_cons_self

/-- The schema of a scalar has no schemas inside. -/
theorem leaf_scalarSchema (naming : Naming) (info : MemberInfo) (typeText : String)
    (target : Option TargetUnit) :
    (scalarSchema naming info typeText target).properties = none ∧
      (scalarSchema naming info typeText target).items = none ∧
      (scalarSchema naming info typeText target).additional = none := by
  rw [scalarSchema]
  split
  · rw [Schema.ofBoundedPrimitive, Schema.withLengthBounds_eq, Schema.withMagnitudeBounds_eq]
    split
    · exact ⟨rfl, rfl, rfl⟩
    · split <;> exact ⟨rfl, rfl, rfl⟩
  · split <;> exact ⟨rfl, rfl, rfl⟩

/-- Bounds on the number of items leave the items as they are. -/
theorem layout_collection (naming : Naming) (info : MemberInfo) (element : Member) :
    (schema naming (.collection info element)).properties = none ∧
      (schema naming (.collection info element)).items = some (element.schema naming) ∧
      (schema naming (.collection info element)).additional = none := by
  rw [schema, Schema.withItemBounds_eq]
  exact ⟨rfl, rfl, rfl⟩

/-- Bounds on the number of entries leave the values as they are. -/
theorem layout_mapping (naming : Naming) (info : MemberInfo) (key value : Member) :
    (schema naming (.mapping info key value)).properties = none ∧
      (schema naming (.mapping info key value)).items = none ∧
      (schema naming (.mapping info key value)).additional =
        some (.array (value.schema naming)) := by
  rw [schema, Schema.withItemBounds_eq]
  exact ⟨rfl, rfl, rfl⟩

/-- The schemas of all layers are inside of the schema of the member. -/
theorem inside_of_mem_layers {layer : Member} (among : layer ∈ m.layers) :
    (layer.schema naming).Inside (m.schema naming) := by
  induction m with
  | scalar info typeText target =>
      rw [List.mem_singleton.mp among]
      exact .self
  | collection info element ih =>
      rcases List.mem_cons.mp among with rfl | inner
      · exact .self
      · exact .items (layout_collection naming info element).2.1 (ih inner)
  | mapping info key value _ ih =>
      rcases List.mem_cons.mp among with rfl | inner
      · exact .self
      · exact .additional (layout_mapping naming info key value).2.2 (.items rfl (ih inner))

/-- The nodes of a member's schema are the schemas of its layers and the sequences of a map. -/
theorem layer_of_inside (inside : node.Inside (m.schema naming)) :
    (∃ layer ∈ m.layers, node = layer.schema naming) ∨
      ∃ layer : Member, node = .array (layer.schema naming) := by
  induction m with
  | scalar info typeText target =>
      obtain ⟨properties, items, additional⟩ := leaf_scalarSchema naming info typeText target
      rcases inside.of_properties_eq_none properties with here | ⟨inner, has, _⟩ | ⟨inner, has, _⟩
      · exact Or.inl ⟨_, self_mem_layers _, here⟩
      · exact absurd (items.symm.trans has) (by simp)
      · exact absurd (additional.symm.trans has) (by simp)
  | collection info element ih =>
      obtain ⟨properties, items, additional⟩ := layout_collection naming info element
      rcases inside.of_properties_eq_none properties with
        here | ⟨inner, has, within⟩ | ⟨inner, has, _⟩
      · exact Or.inl ⟨_, self_mem_layers _, here⟩
      · cases items.symm.trans has
        refine (ih within).imp_left fun found => ?_
        obtain ⟨layer, among, here⟩ := found
        exact ⟨layer, List.mem_cons_of_mem _ among, here⟩
      · cases additional.symm.trans has
  | mapping info key value _ ih =>
      obtain ⟨properties, items, additional⟩ := layout_mapping naming info key value
      rcases inside.of_properties_eq_none properties with
        here | ⟨inner, has, _⟩ | ⟨inner, has, within⟩
      · exact Or.inl ⟨_, self_mem_layers _, here⟩
      · cases items.symm.trans has
      · cases additional.symm.trans has
        rcases within.of_properties_eq_none rfl with here | ⟨inner, has, within⟩ | ⟨inner, has, _⟩
        · exact Or.inr ⟨value, here⟩
        · cases has
          refine (ih within).imp_left fun found => ?_
          obtain ⟨layer, among, here⟩ := found
          exact ⟨layer, List.mem_cons_of_mem _ among, here⟩
        · cases has

end Member

/-- At a node of a member's schema that is no number, no magnitude is bounded or marked. At a
number, the bound on a side is the first number among those that the keywords of the side give, if
it is finite, and the bound is marked if the strict keyword gives a number. So a mark stands without
a bound exactly if that number is not finite, and no operand is lost if all are finite. Bounds on
counts and lengths lose no operand. -/
theorem exclusive_marks (naming : Naming) (m : Member) :
    (∀ node : Schema, node.Inside (m.schema naming) →
      (∃ layer ∈ m.layers, layer.IsNumeric ∧ node = layer.schema naming) ∨
        ∀ side : Side, side.magnitude node = none ∧ side.mark node = none) ∧
    ∀ layer ∈ m.layers,
      let node := layer.schema naming
      let number? := layer.info.validation.number?
      node.Inside (m.schema naming) ∧ ∀ side : Side,
        (layer.IsNumeric →
          side.magnitude node = (side.keywords.findSome? number?).bind Numeral.ofBinary64? ∧
          (side.magnitude node = none ↔
            ∀ x, side.keywords.findSome? number? = some x → x.isFinite = false) ∧
          side.mark node = (number? side.strict).map (fun _ => true) ∧
          ((side.mark node).isSome = true ∧ side.magnitude node = none ↔
            ∃ x, number? side.strict = some x ∧ x.isFinite = false) ∧
          ((∀ keyword ∈ side.keywords, ∀ x, number? keyword = some x → x.isFinite = true) →
            ((side.mark node).isSome = true → (side.magnitude node).isSome = true) ∧
            ∀ keyword ∈ side.keywords, (number? keyword).isSome = true →
              (side.magnitude node).isSome = true)) ∧
        (layer.hasItems = true →
          ((side.itemCount node).isSome = true ↔
            layer.info.validation.exactCount?.isSome = true ∨
              ∃ keyword ∈ [side.strict, "len", side.loose, side.substitute],
                (number? keyword).isSome = true)) ∧
        (layer.primitive?.map (·.kind) = some "string" →
          ((side.textLength node).isSome = true ↔
            ∃ keyword ∈ [side.strict, "len", side.loose, side.substitute],
              (number? keyword).isSome = true)) := by
  refine ⟨fun node inside => ?_, fun layer among => ?_⟩
  · rcases Member.layer_of_inside inside with ⟨layer, among, rfl⟩ | ⟨layer, rfl⟩
    · by_cases numeric : layer.IsNumeric
      · exact Or.inl ⟨layer, among, numeric, rfl⟩
      · exact Or.inr (Member.unbounded_of_not_numeric numeric)
    · exact Or.inr fun side => by cases side <;> exact ⟨rfl, rfl⟩
  · refine ⟨Member.inside_of_mem_layers among, fun side => ⟨fun numeric => ?_, fun counted => ?_,
      fun text => ?_⟩⟩
    · obtain ⟨magnitude, mark⟩ := Member.magnitude_schema naming side numeric
      rw [magnitude, mark]
      refine ⟨Validation.numeral?_limit? _ side, Validation.numeral?_limit?_eq_none_iff _ side,
        Validation.mark?_limit? _ side, Validation.mark_alone_iff _ side, fun finite =>
          ⟨fun marked => ?_, fun keyword among => Validation.isSome_numeral?_limit? finite among⟩⟩
      rw [Validation.mark?_limit?, Option.isSome_map] at marked
      exact Validation.isSome_numeral?_limit? finite List.mem_cons_self marked
    · rw [Member.itemCount_schema naming side counted]
      exact Validation.isSome_count?_iff _ side _
    · rw [(Member.textLength_schema naming side text).1, Validation.isSome_count?_iff]
      simp only [Option.isSome_none, Bool.false_eq_true, false_or]

/-- A number with a strict bound that overrules a loose one. -/
def scoreMember : Member := .scalar { validation := .read "min=0,gt=-2.5,max=1e2" } "f64" none

/-- A number inside of a map has its mark and its bound, since its strict operand is finite. -/
theorem exclusive_marks_score :
    let scores : Member := .mapping { name := "scores" } (.scalar {} "String" none) scoreMember
    scoreMember ∈ scores.layers ∧ scoreMember.IsNumeric ∧
      (scoreMember.schema .full).Inside (scores.schema .full) ∧
      (scoreMember.schema .full).exclusiveMinimum = some true ∧
      ∃ x, scoreMember.info.validation.number? "gt" = some x ∧ x.isFinite = true := by
  intro scores
  have among : scoreMember ∈ scores.layers := List.mem_cons_of_mem _ scoreMember.self_mem_layers
  have numeric : scoreMember.IsNumeric := by
    rw [Member.IsNumeric]
    decide +kernel
  obtain ⟨inside, follows⟩ := (exclusive_marks .full scores).2 scoreMember among
  obtain ⟨_, _, mark, alone, _⟩ := (follows .lower).1 numeric
  have marked : Side.lower.mark (scoreMember.schema .full) = some true := by decide +kernel
  have bounded : Side.lower.magnitude (scoreMember.schema .full) ≠ none := by decide +kernel
  obtain ⟨x, given, _⟩ := Option.map_eq_some_iff.mp (mark.symm.trans marked)
  refine ⟨among, numeric, inside, marked, x, given, ?_⟩
  by_contra infinite
  exact bounded (alone.mpr ⟨x, given, Bool.not_eq_true _ ▸ infinite⟩).2

/-- The operand of `gt` is infinite: the bound of `min` is lost, and the mark stands alone. -/
theorem mark_without_bound :
    let score : Member := .ofTypeText "f64".toList
      { name := "score", validation := .read "min=0,gt=inf" }
    score.info.validation.number? "min" = some (Binary64.zero false) ∧
      (score.schema .full).minimum = none ∧ (score.schema .full).exclusiveMinimum = some true := by
  decide +kernel

end ApiDocs
