import ApiDocs.Proofs.Package.Uses
import ApiDocs.Proofs.Source.TypeText

/-!
# What paths are written as

If the bindings of a file are clear, that is, if no two of them disagree on a name and none takes
the name of a dependency for something else, then the order in which they are recorded does not
matter: each name has the entry that its own binding gives it (`reflects_ofBindings`). What a path
is written as follows from the entry of its first name.
-/

namespace ApiDocs.Source

variable {crates : Table ImportPath}

/-! ## Entries of names -/

namespace UseTable

/-- The qualifier and the declared name that a table has for a name. -/
def at? (uses : UseTable) (name : String) : Option String × Option String :=
  (uses.qualifiers.get? name, uses.items.get? name)

/-- The tables have the same for every name. -/
def Agrees (uses other : UseTable) : Prop := ∀ name, uses.at? name = other.at? name

theorem at?_ofCrates (name : String) :
    (ofCrates crates).at? name = ((crates.get? name).map fun _ => name, none) :=
  Prod.ext (get?_qualifiers_ofCrates name) rfl

/-- What a binding does to the items. -/
theorem get?_items_record (table : UseTable) {binding : Binding} {first : String}
    {rest : List String} (leads : binding.path = first :: rest) (name : String) :
    (record crates table binding).items.get? name =
      if binding.name = name ∧ name ≠ "_" ∧ crates.has first then rest.getLast?
      else table.items.get? name := by
  rw [record, leads]
  by_cases counts : crates.has first = true ∧ binding.name ≠ "_"
  · obtain ⟨known, named⟩ := counts
    have same : (binding.name = name ∧ name ≠ "_" ∧ crates.has first = true) ↔
        binding.name = name :=
      ⟨And.left, fun same => ⟨same, same ▸ named, known⟩⟩
    have records : ¬ (!crates.has first || decide (binding.name = "_")) = true := by
      simp [known, named]
    dsimp only
    rw [if_neg records]
    simp only [same]
    cases rest.getLast? with
    | none => exact Table.get?_erase _ _ _
    | some item => exact Table.get?_set _ _ _ _
  · have skips : (!crates.has first || decide (binding.name = "_")) = true := by
      by_cases known : crates.has first = true
      · simpa [known] using counts
      · simp [known]
    have other : ¬ (binding.name = name ∧ name ≠ "_" ∧ crates.has first = true) :=
      fun both => counts ⟨both.2.2, both.1 ▸ both.2.1⟩
    dsimp only
    rw [if_pos skips, if_neg other]

/-- Recording a binding of a dependency changes its own name and no other. -/
theorem at?_record (table : UseTable) {binding : Binding} {first : String} {rest : List String}
    (leads : binding.path = first :: rest) (name : String) :
    (record crates table binding).at? name =
      if binding.name = name ∧ name ≠ "_" ∧ crates.has first then
        (some (if rest = [] then name else (table.qualifiers.get? first).getD first),
          rest.getLast?)
      else table.at? name := by
  unfold at?
  rw [get?_qualifiers_record table leads, get?_items_record table leads]
  by_cases counts : binding.name = name ∧ name ≠ "_" ∧ crates.has first
  · rw [if_pos counts, if_pos counts, if_pos counts]
    by_cases whole : rest = []
    · rw [if_pos whole, if_pos whole]
    · rw [if_neg whole, if_neg whole]
  · rw [if_neg counts, if_neg counts, if_neg counts]

end UseTable

/-! ## Clear bindings -/

/-- The path of the binding begins with a dependency. A binding to `_` binds no name. -/
def Binding.Enters (crates : Table ImportPath) (binding : Binding) : Prop :=
  binding.name ≠ "_" ∧ ∃ first rest, binding.path = first :: rest ∧ crates.has first = true

/-- No two bindings disagree on a name, and the name of a dependency is bound to nothing else. -/
structure Clear (crates : Table ImportPath) (bindings : List Binding) : Prop where
  once : ∀ binding ∈ bindings, ∀ other ∈ bindings, binding.name = other.name →
    binding.name ≠ "_" → binding.path = other.path
  own : ∀ binding ∈ bindings, binding.name ≠ "_" → crates.has binding.name = true →
    binding.path = [binding.name]

theorem Clear.subset {bindings others : List Binding} (clear : Clear crates bindings)
    (part : others ⊆ bindings) : Clear crates others where
  once binding among other inOthers := clear.once binding (part among) other (part inOthers)
  own binding among := clear.own binding (part among)

/-- The table has for each name what the bindings say of it, whatever their order. -/
structure Reflects (crates : Table ImportPath) (bindings : List Binding) (uses : UseTable) :
    Prop where
  dependency : ∀ name, crates.has name = true → uses.at? name = (some name, none)
  bound : ∀ binding ∈ bindings, binding.name ≠ "_" → ∀ first rest,
    binding.path = first :: rest → crates.has first = true →
      uses.at? binding.name =
        (some (if rest = [] then binding.name else first), rest.getLast?)
  free : ∀ name, crates.has name = false →
    (∀ binding ∈ bindings, binding.name = name → ¬ binding.Enters crates) →
      uses.at? name = (none, none)

/-- A table that reflects bindings reflects one more after it is recorded. -/
theorem Reflects.record {bindings : List Binding} {uses : UseTable}
    (reflects : Reflects crates bindings uses) {binding : Binding}
    (clear : Clear crates (bindings ++ [binding])) :
    Reflects crates (bindings ++ [binding]) (UseTable.record crates uses binding) := by
  have last : binding ∈ bindings ++ [binding] := List.mem_append_right _ List.mem_cons_self
  cases leads : binding.path with
  | nil =>
      have kept : UseTable.record crates uses binding = uses := by rw [UseTable.record, leads]
      rw [kept]
      refine ⟨reflects.dependency, ?_, ?_⟩
      · intro other among named first rest split known
        rcases List.mem_append.mp among with early | late
        · exact reflects.bound other early named first rest split known
        · cases List.mem_singleton.mp late
          rw [leads] at split
          cases split
      · intro name unknown apart
        exact reflects.free name unknown fun other early =>
          apart other (List.mem_append_left _ early)
  | cons first rest =>
      have value : ∀ name, crates.has first = true →
          some (if rest = [] then name else (uses.qualifiers.get? first).getD first) =
            some (if rest = [] then name else first) := by
        intro name known
        have own : uses.qualifiers.get? first = some first :=
          congrArg Prod.fst (reflects.dependency first known)
        rw [own, Option.getD_some]
      refine ⟨?_, ?_, ?_⟩
      · intro name isCrate
        rw [UseTable.at?_record uses leads]
        by_cases counts : binding.name = name ∧ name ≠ "_" ∧ crates.has first
        · obtain ⟨rfl, named, _⟩ := id counts
          have own := clear.own binding last named isCrate
          rw [leads] at own
          cases own
          rw [if_pos counts, if_pos rfl]
          rfl
        · rw [if_neg counts]
          exact reflects.dependency name isCrate
      · intro other among named first' rest' split known
        rw [UseTable.at?_record uses leads]
        by_cases counts : binding.name = other.name ∧ other.name ≠ "_" ∧ crates.has first
        · -- the new binding agrees with every earlier one of its name
          have same := clear.once binding last other among counts.1 (counts.1 ▸ named)
          rw [leads, split] at same
          cases same
          rw [if_pos counts, value _ known]
        · rw [if_neg counts]
          rcases List.mem_append.mp among with early | late
          · exact reflects.bound other early named first' rest' split known
          · cases List.mem_singleton.mp late
            rw [leads] at split
            cases split
            exact absurd ⟨rfl, named, known⟩ counts
      · intro name unknown apart
        rw [UseTable.at?_record uses leads]
        have skips : ¬ (binding.name = name ∧ name ≠ "_" ∧ crates.has first) := by
          intro counts
          exact apart binding last counts.1 ⟨counts.1 ▸ counts.2.1, first, rest, leads, counts.2.2⟩
        rw [if_neg skips]
        exact reflects.free name unknown fun other early =>
          apart other (List.mem_append_left _ early)

/-- Clear bindings may be recorded in any order. -/
theorem reflects_ofBindings {bindings : List Binding} (clear : Clear crates bindings) :
    Reflects crates bindings (UseTable.ofBindings crates bindings) := by
  induction bindings using List.reverseRecOn with
  | nil =>
      refine ⟨?_, nofun, ?_⟩
      · intro name known
        obtain ⟨path, given⟩ := Option.isSome_iff_exists.mp known
        refine (UseTable.at?_ofCrates name).trans ?_
        rw [given]
        rfl
      · intro name unknown _
        have absent : crates.get? name = none := by simpa [Table.has] using unknown
        refine (UseTable.at?_ofCrates name).trans ?_
        rw [absent]
        rfl
  | append_singleton bindings binding ih =>
      have earlier := ih (clear.subset (List.subset_append_left _ _))
      rw [UseTable.ofBindings, List.foldl_append, List.foldl_cons, List.foldl_nil]
      exact earlier.record clear

/-- Tables that reflect the same bindings agree on all names. -/
theorem Reflects.agrees {bindings others : List Binding} {uses table : UseTable}
    (reflects : Reflects crates bindings uses) (alike : Reflects crates others table)
    (same : ∀ binding, binding ∈ bindings ↔ binding ∈ others) : uses.Agrees table := by
  intro name
  by_cases isCrate : crates.has name = true
  · rw [reflects.dependency name isCrate, alike.dependency name isCrate]
  · have unknown : crates.has name = false := by simpa using isCrate
    by_cases entered : ∃ binding ∈ bindings, binding.name = name ∧ binding.Enters crates
    · obtain ⟨binding, among, rfl, named, first, rest, leads, known⟩ := entered
      rw [reflects.bound binding among named first rest leads known,
        alike.bound binding ((same binding).mp among) named first rest leads known]
    · have apart : ∀ binding ∈ bindings, binding.name = name → ¬ binding.Enters crates :=
        fun binding among own enters => entered ⟨binding, among, own, enters⟩
      rw [reflects.free name unknown apart,
        alike.free name unknown fun binding among => apart binding ((same binding).mpr among)]

/-! ## Texts -/

namespace TypeExpr

theorem nameText_of_agrees {uses other : UseTable} (agrees : uses.Agrees other) (name : String) :
    uses.nameText name = other.nameText name := by
  obtain ⟨qualifier, item⟩ := Prod.ext_iff.mp (agrees name)
  unfold UseTable.nameText
  dsimp only [UseTable.at?] at qualifier item
  rw [qualifier, item]

theorem pathText_of_agrees {uses other : UseTable} (agrees : uses.Agrees other)
    (first name : String) : uses.pathText first name = other.pathText first name := by
  have qualifier := congrArg Prod.fst (agrees first)
  unfold UseTable.pathText
  dsimp only [UseTable.at?] at qualifier
  rw [qualifier]

mutual

/-- Tables that agree write every type alike. -/
theorem text_of_agrees {uses other : UseTable} (agrees : uses.Agrees other)
    (parameters : List String) :
    ∀ type : TypeExpr, type.text uses parameters = type.text other parameters
  | .reference target => by
    rw [text, text, text_of_agrees agrees parameters target]
  | .pointer target => by
    rw [text, text, text_of_agrees agrees parameters target]
  | .slice element => by
    rw [text, text, text_of_agrees agrees parameters element]
  | .array element => by
    rw [text, text, text_of_agrees agrees parameters element]
  | .paren inner => by
    rw [text, text, text_of_agrees agrees parameters inner]
  | .tuple isEmpty => by
    rw [text, text]
  | .path none name arguments => by
    rw [text, text, texts_of_agrees agrees parameters arguments, nameText_of_agrees agrees]
  | .path (some first) name arguments => by
    rw [text, text, texts_of_agrees agrees parameters arguments, pathText_of_agrees agrees]
  | .other => by
    rw [text, text]

theorem texts_of_agrees {uses other : UseTable} (agrees : uses.Agrees other)
    (parameters : List String) :
    ∀ types : List TypeExpr, texts uses parameters types = texts other parameters types
  | [] => by
    rw [texts, texts]
  | type :: types => by
    rw [texts, texts, text_of_agrees agrees parameters type,
      texts_of_agrees agrees parameters types]

end

/-- Every type has its text. -/
theorem length_texts (uses : UseTable) (parameters : List String) (types : List TypeExpr) :
    (texts uses parameters types).length = types.length := by
  induction types with
  | nil => rfl
  | cons type types ih => rw [texts, List.length_cons, List.length_cons, ih]

end TypeExpr

/-- The name is of a known family and has the arguments that the family needs. -/
def IsFamily (name : String) (count : Nat) : Prop :=
  (name ∈ pointerNames ∨ name ∈ sequenceNames) ∧ 1 ≤ count ∨ name ∈ mapNames ∧ 2 ≤ count

instance (name : String) (count : Nat) : Decidable (IsFamily name count) :=
  inferInstanceAs (Decidable
    ((name ∈ pointerNames ∨ name ∈ sequenceNames) ∧ 1 ≤ count ∨ name ∈ mapNames ∧ 2 ≤ count))

theorem familyText?_eq_none {name : String} {arguments : List String}
    (apart : ¬ IsFamily name arguments.length) : familyText? name arguments = none := by
  rw [familyText?_eq]
  simp only [IsFamily, not_or, not_and] at apart
  obtain ⟨single, pair⟩ := apart
  simp only [List.contains_iff_mem]
  split_ifs with pointer sequence map
  · have empty : arguments = [] := by
      have short := single (Or.inl pointer)
      exact List.eq_nil_of_length_eq_zero (by omega)
    rw [empty]
    rfl
  · have empty : arguments = [] := by
      have short := single (Or.inr sequence)
      exact List.eq_nil_of_length_eq_zero (by omega)
    rw [empty]
    rfl
  · have short := pair map
    rcases arguments with _ | ⟨first, _ | ⟨second, others⟩⟩
    · rfl
    · rfl
    · simp at short
  · rfl

/-! ## Rules for paths -/

section Rules

variable (crates : Table ImportPath) (bindings : List Binding)

/-- The name is bound to a path of several names in a dependency. -/
def IsItem (name dependency last : String) : Prop :=
  ∃ between, ⟨name, dependency :: (between ++ [last])⟩ ∈ bindings ∧ name ≠ "_" ∧
    crates.has dependency = true

/-- The name is bound to a dependency itself. -/
def IsAlias (name dependency : String) : Prop :=
  ⟨name, [dependency]⟩ ∈ bindings ∧ name ≠ "_" ∧ crates.has dependency = true

/-- The name is not that of a dependency, and not bound to a path in one. -/
def IsLocal (name : String) : Prop :=
  crates.has name = false ∧ ∀ binding ∈ bindings, binding.name = name → ¬ binding.Enters crates

/-- How paths are written: with a dependency and the last name of what they are bound to. Types of
known families with arguments and type parameters are left aside. -/
structure WritesPaths (parameters : List String) (write : TypeExpr → String) : Prop where
  item : ∀ name arguments dependency last, ¬ IsFamily name arguments.length → name ∉ parameters →
    IsItem crates bindings name dependency last →
      write (.path none name arguments) = dependency ++ "." ++ last
  itself : ∀ name arguments, ¬ IsFamily name arguments.length → name ∉ parameters →
    IsLocal crates bindings name → write (.path none name arguments) = name
  inDependency : ∀ first last arguments, ¬ IsFamily last arguments.length →
    crates.has first = true → write (.path (some first) last arguments) = first ++ "." ++ last
  inModule : ∀ first last arguments dependency module, ¬ IsFamily last arguments.length →
    IsItem crates bindings first dependency module →
      write (.path (some first) last arguments) = dependency ++ "." ++ last
  inAlias : ∀ first last arguments dependency, ¬ IsFamily last arguments.length →
    IsAlias crates bindings first dependency →
      write (.path (some first) last arguments) = first ++ "." ++ last
  inLocal : ∀ first last arguments, ¬ IsFamily last arguments.length →
    IsLocal crates bindings first → write (.path (some first) last arguments) = last

end Rules

section

variable {bindings : List Binding} {uses : UseTable} {parameters : List String}

/-- A single name is written as the table has it, unless it is a parameter or a known family. -/
theorem TypeExpr.text_single {name : String} {arguments : List TypeExpr}
    (apart : ¬ IsFamily name arguments.length) (fixed : name ∉ parameters) :
    text uses parameters (.path none name arguments) = uses.nameText name := by
  rw [← length_texts uses parameters] at apart
  rw [text, familyText?_eq_none apart]
  dsimp only
  rw [if_neg]
  simpa using fixed

/-- A path is written with its first and its last name, unless it is a known family. -/
theorem TypeExpr.text_several {first last : String} {arguments : List TypeExpr}
    (apart : ¬ IsFamily last arguments.length) :
    text uses parameters (.path (some first) last arguments) = uses.pathText first last := by
  rw [← length_texts uses parameters] at apart
  rw [text, familyText?_eq_none apart]

theorem Reflects.at?_of_isItem (reflects : Reflects crates bindings uses)
    {name dependency last : String} (bound : IsItem crates bindings name dependency last) :
    uses.at? name = (some dependency, some last) := by
  obtain ⟨between, among, named, known⟩ := bound
  have entered := reflects.bound _ among named _ _ rfl known
  rw [if_neg (List.append_ne_nil_of_right_ne_nil _ (List.cons_ne_nil _ _)),
    List.getLast?_concat] at entered
  exact entered

theorem UseTable.pathText_of_at? {first qualifier last : String} {item : Option String}
    (entered : uses.at? first = (some qualifier, item)) :
    uses.pathText first last = qualifier ++ "." ++ last := by
  have qualified : uses.qualifiers.get? first = some qualifier := congrArg Prod.fst entered
  rw [pathText, qualified]

/-- A table that reflects clear bindings writes paths as the bindings say. -/
theorem Reflects.writesPaths (reflects : Reflects crates bindings uses)
    (clear : Clear crates bindings) (parameters : List String) :
    WritesPaths crates bindings parameters (TypeExpr.text uses parameters) where
  item := by
    intro name arguments dependency last apart fixed bound
    obtain ⟨qualified, declared⟩ := Prod.ext_iff.mp (reflects.at?_of_isItem bound)
    obtain ⟨between, among, named, known⟩ := bound
    have foreign : dependency ≠ name := by
      intro same
      subst same
      have own := clear.own _ among named known
      simp at own
    dsimp only [UseTable.at?] at qualified declared
    rw [TypeExpr.text_single apart fixed, UseTable.nameText, qualified, declared]
    dsimp only
    rw [if_neg foreign, Option.getD_some]
  itself := by
    intro name arguments apart fixed own
    obtain ⟨unqualified, undeclared⟩ := Prod.ext_iff.mp (reflects.free name own.1 own.2)
    dsimp only [UseTable.at?] at unqualified undeclared
    rw [TypeExpr.text_single apart fixed, UseTable.nameText, unqualified, undeclared]
    rfl
  inDependency := by
    intro first last arguments apart known
    rw [TypeExpr.text_several apart, UseTable.pathText_of_at? (reflects.dependency first known)]
  inModule := by
    intro first last arguments dependency module apart bound
    rw [TypeExpr.text_several apart, UseTable.pathText_of_at? (reflects.at?_of_isItem bound)]
  inAlias := by
    intro first last arguments dependency apart bound
    have entered := reflects.bound _ bound.1 bound.2.1 _ _ rfl bound.2.2
    rw [TypeExpr.text_several apart, UseTable.pathText_of_at? entered]
    rfl
  inLocal := by
    intro first last arguments apart own
    have unqualified : uses.qualifiers.get? first = none :=
      congrArg Prod.fst (reflects.free first own.1 own.2)
    rw [TypeExpr.text_several apart, UseTable.pathText, unqualified]

end

end ApiDocs.Source
