import ApiDocs.Proofs.Directive
import ApiDocs.Proofs.Package.Qualifiers
import ApiDocs.Proofs.Source.Bound
import ApiDocs.Proofs.Text.Pattern

/-!
# Types in directives and types of fields

A type in a directive is a path of identifiers inside of any number of wrappers (`WrittenType`). Its
normal form has a marker for each wrapper and a reference for the path, and `fieldText` gives the
normal form however the names of the path are separated (`fieldText_text`).
-/

namespace ApiDocs

/-! ## Characters of identifiers -/

namespace Text

theorem isIdentContinue_of_isIdentStart {c : Char} (starts : isIdentStart c = true) :
    isIdentContinue c = true := by
  unfold isIdentStart at starts
  unfold isIdentContinue
  split at starts
  · rename_i ascii
    rw [if_pos ascii, Char.isAlphanum]
    rcases Bool.or_eq_true_iff.mp starts with letter | underscore
    · rw [letter, Bool.true_or, Bool.true_or]
    · rw [underscore, Bool.or_true]
  · rename_i other
    rw [if_neg other, starts, Bool.true_or]

set_option maxRecDepth 10000 in
/-- No blank can be part of an identifier. There are few blanks, so each of them is looked at. -/
theorem not_isIdentContinue_of_mem_blankCodes :
    ∀ code ∈ blankCodes, isIdentContinue (Char.ofNat code) = false := by
  decide +kernel

theorem isBlank_of_isIdentContinue {c : Char} (continues : isIdentContinue c = true) :
    isBlank c = false := by
  cases blank : isBlank c with
  | false => rfl
  | true =>
      have outside := not_isIdentContinue_of_mem_blankCodes _ (mem_blankCodes_of_isBlank blank)
      rw [Char.ofNat_toNat, continues] at outside
      cases outside

end Text

namespace Source.IsName

variable {name : String}

/-- An identifier has only characters that can stand inside of one. -/
theorem continues (isName : IsName name) : ∀ c ∈ name.toList, Text.isIdentContinue c = true := by
  obtain ⟨c, rest, chars, starts, others⟩ := chars_of_wordLength? isName.1
  rw [chars]
  exact List.forall_mem_cons.mpr ⟨Text.isIdentContinue_of_isIdentStart starts, others⟩

theorem not_mem (isName : IsName name) {c : Char} (outside : Text.isIdentContinue c = false) :
    c ∉ name.toList := by
  intro among
  rw [isName.continues c among] at outside
  cases outside

theorem ne_nil (isName : IsName name) : name.toList ≠ [] := by
  obtain ⟨c, rest, chars, _⟩ := chars_of_wordLength? isName.1
  rw [chars]
  exact List.cons_ne_nil _ _

/-- An identifier has none of the marks that type texts are taken apart at. -/
theorem unmarked (isName : IsName name) : TypeText.Unmarked name := by
  refine ⟨fun empty => isName.ne_nil (empty ▸ rfl), fun c among => ?_⟩
  refine ⟨?_, ?_, ?_⟩
  · rintro rfl
    exact isName.not_mem (by decide) among
  · rintro rfl
    exact isName.not_mem (by decide) among
  · rintro rfl
    exact isName.not_mem (by decide) among

end Source.IsName

namespace Directive

/-! ## Written types -/

/-- An identifier. -/
abbrev Identifier := { name : String // Source.IsName name }

/-- What stands between two names of a path. -/
inductive Separator where
  | colons
  | point
deriving DecidableEq

/-- A path of identifiers. -/
inductive TypePath where
  | single (name : Identifier)
  | several (first : Identifier) (between : List (Separator × Identifier)) (separator : Separator)
      (last : Identifier)

/-- The types that a type may be an argument of. -/
inductive Wrapper where
  | vec
  | option
  | box
deriving DecidableEq

/-- A type as a directive writes it. -/
inductive WrittenType where
  | bare (path : TypePath)
  | wrapped (wrapper : Wrapper) (argument : WrittenType)

/-- A separator as it is written. -/
def Separator.text : Separator → List Char
  | .colons => [':', ':']
  | .point => ['.']

/-- The name of a wrapper. -/
def Wrapper.name : Wrapper → String
  | .vec => "Vec"
  | .option => "Option"
  | .box => "Box"

/-- The marker that stands for a wrapper. -/
def Wrapper.marker : Wrapper → String
  | .vec => "[]"
  | .option => "*"
  | .box => "*"

/-- A path with a way to write separators. -/
def TypePath.spelled (write : Separator → List Char) : TypePath → List Char
  | .single name => name.1.toList
  | .several first between separator last =>
    first.1.toList ++ (between.flatMap (fun step => write step.1 ++ step.2.1.toList) ++
      (write separator ++ last.1.toList))

/-- A type with a way to write separators. -/
def WrittenType.spelled (write : Separator → List Char) : WrittenType → List Char
  | .bare path => path.spelled write
  | .wrapped wrapper argument =>
    wrapper.name.toList ++ '<' :: (argument.spelled write ++ ['>'])

/-- A type as it is written. -/
def WrittenType.text (type : WrittenType) : List Char := type.spelled Separator.text

/-- The words for the unit itself. -/
def ownWords : List String := ["crate", "self", "super"]

/-- What a path refers to: a name of the unit, or one of the unit that the path begins with. -/
def TypePath.reference : TypePath → String
  | .single name => name
  | .several first _ _ last =>
    if first.1 ∈ ownWords then last else first.1 ++ "." ++ last.1

/-- The notation of a type among field types. -/
def WrittenType.normal : WrittenType → String
  | .bare path => path.reference
  | .wrapped wrapper argument => wrapper.marker ++ argument.normal

/-- The layers of a type. -/
def WrittenType.tree : WrittenType → TypeText.Tree
  | .bare path => .name path.reference
  | .wrapped .vec argument => .sequence argument.tree
  | .wrapped _ argument => argument.tree

/-! ## Points for separators -/

/-- Separators that become points. -/
def Pointing (write : Separator → List Char) : Prop :=
  ∀ separator, write separator = ['.'] ∨ write separator = [':', ':']

/-- Paths may be written with the separators as they are given. -/
theorem pointing_text : Pointing Separator.text := by
  rintro (_ | _)
  · exact Or.inr rfl
  · exact Or.inl rfl

/-- Paths may be written with points throughout. -/
theorem pointing_point : Pointing fun _ => ['.'] := fun _ => Or.inl rfl

/-- Only colons are changed, so a text without them stays as it is. -/
theorem pointed_append {text : List Char} (noColon : ':' ∉ text) (rest : List Char) :
    pointed (text ++ rest) = text ++ pointed rest := by
  induction text with
  | nil => rfl
  | cons c text ih =>
      have differs : c ≠ ':' := fun same => noColon (same ▸ List.mem_cons_self)
      rw [List.cons_append, List.cons_append,
        ← ih fun later => noColon (List.mem_cons_of_mem _ later)]
      rw [pointed.eq_def]
      split
      · rename_i same
        exact absurd (List.cons.inj same).1 differs
      · rename_i same
        cases same
        rfl
      · rename_i same
        cases same

/-- However a separator is written, it becomes a point. -/
theorem Pointing.pointed_eq {write : Separator → List Char} (pointing : Pointing write)
    (separator : Separator) (rest : List Char) :
    pointed (write separator ++ rest) = '.' :: pointed rest := by
  rcases pointing separator with same | same
  · rw [same]
    exact pointed_append (by decide) rest
  · rw [same]
    rfl

theorem pointed_name (name : Identifier) (rest : List Char) :
    pointed (name.1.toList ++ rest) = name.1.toList ++ pointed rest :=
  pointed_append (name.2.not_mem (by decide)) rest

/-- A path comes out with points, whatever its separators were. -/
theorem TypePath.pointed_spelled {write : Separator → List Char} (pointing : Pointing write)
    (path : TypePath) (rest : List Char) :
    pointed (path.spelled write ++ rest) = path.spelled (fun _ => ['.']) ++ pointed rest := by
  cases path with
  | single name => exact pointed_name name rest
  | several first between separator last =>
      have steps : ∀ (between : List (Separator × Identifier)) (rest : List Char),
          pointed (between.flatMap (fun step => write step.1 ++ step.2.1.toList) ++ rest) =
            between.flatMap (fun step => '.' :: step.2.1.toList) ++ pointed rest := by
        intro between rest
        induction between with
        | nil => rfl
        | cons step between ih =>
            rw [List.flatMap_cons, List.flatMap_cons, List.append_assoc, List.append_assoc,
              pointing.pointed_eq, pointed_name, ih, List.append_assoc]
            rfl
      simp only [spelled, List.append_assoc]
      rw [pointed_name, steps, pointing.pointed_eq, pointed_name]
      rfl

/-- A type comes out with points in its path; its wrappers have none. -/
theorem pointed_spelled {write : Separator → List Char} (pointing : Pointing write)
    (type : WrittenType) (rest : List Char) :
    pointed (type.spelled write ++ rest) = type.spelled (fun _ => ['.']) ++ pointed rest := by
  induction type generalizing rest with
  | bare path => exact path.pointed_spelled pointing rest
  | wrapped wrapper argument ih =>
      have opened : ':' ∉ wrapper.name.toList ++ ['<'] := by cases wrapper <;> decide
      have closed : ':' ∉ ['>'] := by decide
      have split : ∀ inner : List Char, wrapper.name.toList ++ '<' :: (inner ++ ['>']) ++ rest =
          (wrapper.name.toList ++ ['<']) ++ (inner ++ (['>'] ++ rest)) := by
        intro inner
        simp
      rw [WrittenType.spelled, split, pointed_append opened, ih, pointed_append closed]
      simp [WrittenType.spelled]

/-! ## Taking layers off -/

/-- A path consists of identifiers and separators, so nothing in it ends a field of a line. -/
theorem TypePath.solid {write : Separator → List Char} (pointing : Pointing write)
    (path : TypePath) : ∀ c ∈ path.spelled write,
      c ∈ [':', '.'] ∨ Text.isIdentContinue c = true := by
  have ofSeparator : ∀ separator, ∀ c ∈ write separator,
      c ∈ [':', '.'] ∨ Text.isIdentContinue c = true := by
    intro separator c among
    rcases pointing separator with same | same
    · rw [same] at among
      exact Or.inl (by simp [List.mem_singleton.mp among])
    · rw [same] at among
      exact Or.inl (by simp_all)
  have ofName : ∀ name : Identifier, ∀ c ∈ name.1.toList,
      c ∈ [':', '.'] ∨ Text.isIdentContinue c = true := fun name c among =>
    Or.inr (name.2.continues c among)
  cases path with
  | single name => exact ofName name
  | several first between separator last =>
      refine List.forall_mem_append.mpr ⟨ofName first, List.forall_mem_append.mpr ⟨?_,
        List.forall_mem_append.mpr ⟨ofSeparator separator, ofName last⟩⟩⟩
      intro c among
      obtain ⟨step, _, within⟩ := List.mem_flatMap.mp among
      rcases List.mem_append.mp within with inSeparator | inName
      · exact ofSeparator step.1 c inSeparator
      · exact ofName step.2 c inName

/-- No blanks are written. -/
theorem trim_spelled {write : Separator → List Char} (pointing : Pointing write)
    (type : WrittenType) : Text.trim (type.spelled write) = type.spelled write := by
  refine Text.trim_of_forall ?_
  induction type with
  | bare path =>
      intro c among
      rcases path.solid pointing c among with separates | continues
      · rcases List.mem_cons.mp separates with rfl | point
        · decide
        · rw [List.mem_singleton.mp point]
          decide
      · exact Text.isBlank_of_isIdentContinue continues
  | wrapped wrapper argument ih =>
      have name : (wrapper.name.toList.all fun c => !Text.isBlank c) = true := by
        cases wrapper <;> decide
      have solid : ∀ c ∈ wrapper.name.toList, Text.isBlank c = false := by simpa using name
      refine List.forall_mem_append.mpr ⟨solid, List.forall_mem_cons.mpr ⟨by decide, ?_⟩⟩
      exact List.forall_mem_append.mpr ⟨ih, List.forall_mem_singleton.mpr (by decide)⟩

/-- A text in the brackets of a wrapper is its argument. -/
theorem argument?_wrapped (wrapper inner : List Char) :
    argument? wrapper (wrapper ++ '<' :: (inner ++ ['>'])) = some inner := by
  rw [argument?, Text.after?_append]
  change Text.before? ['>'] (inner ++ ['>']) = some inner
  rw [Text.before?, List.reverse_append]
  change (some inner.reverse).map List.reverse = some inner
  rw [Option.map_some, List.reverse_reverse]

theorem argument?_eq_none {wrapper text : List Char} (noBracket : '<' ∉ text) :
    argument? wrapper text = none := by
  cases found : argument? wrapper text with
  | none => rfl
  | some inner =>
      obtain ⟨afterName, named, opened⟩ := Option.bind_eq_some_iff.mp found
      obtain ⟨afterOpen, bracket, _⟩ := Option.bind_eq_some_iff.mp opened
      rw [TypeText.eq_append_of_after? named, TypeText.eq_append_of_after? bracket] at noBracket
      exact absurd (by simp) noBracket

/-- The layer of a wrapper around a text. -/
def Wrapper.layer : Wrapper → List Char → Layer
  | .vec => .sequence
  | _ => .pointer

/-- A text without brackets is a path and nothing else. -/
theorem layer_of_bare {text bare : List Char} (same : pointed (Text.trim text) = bare)
    (noBracket : '<' ∉ bare) : layer text = .path bare := by
  rw [layer, same, argument?_eq_none noBracket, argument?_eq_none noBracket,
    argument?_eq_none noBracket]
  rfl

/-- A text in the brackets of a wrapper has the layer of that wrapper on the outside. -/
theorem layer_of_wrapped {text inner : List Char} {wrapper : Wrapper}
    (same : pointed (Text.trim text) = wrapper.name.toList ++ '<' :: (inner ++ ['>'])) :
    layer text = wrapper.layer inner := by
  rw [layer, same]
  cases wrapper with
  | vec =>
      rw [Wrapper.name, argument?_wrapped]
      rfl
  | option =>
      have noVec : argument? "Vec".toList ("Option".toList ++ '<' :: (inner ++ ['>'])) = none := rfl
      rw [Wrapper.name, noVec, argument?_wrapped]
      rfl
  | box =>
      have noVec : argument? "Vec".toList ("Box".toList ++ '<' :: (inner ++ ['>'])) = none := rfl
      have noOption : argument? "Option".toList ("Box".toList ++ '<' :: (inner ++ ['>'])) = none :=
        rfl
      rw [Wrapper.name, noVec, noOption, argument?_wrapped]
      rfl

/-- The outermost layer of a written type is its outermost wrapper, or its path if it has none. -/
theorem layer_spelled {write : Separator → List Char} (pointing : Pointing write)
    (type : WrittenType) :
    layer (type.spelled write) = match type with
      | .bare path => .path (path.spelled fun _ => ['.'])
      | .wrapped wrapper argument => wrapper.layer (argument.spelled fun _ => ['.']) := by
  have same : pointed (Text.trim (type.spelled write)) = type.spelled fun _ => ['.'] := by
    have whole := pointed_spelled pointing type []
    rw [List.append_nil] at whole
    rw [trim_spelled pointing, whole]
    exact List.append_nil _
  cases type with
  | bare path =>
      refine layer_of_bare same fun among => ?_
      rcases path.solid pointing_point _ among with separates | continues
      · revert separates
        decide
      · revert continues
        decide
  | wrapped wrapper argument => exact layer_of_wrapped same

/-- The names of a path. -/
def TypePath.names : TypePath → List Identifier
  | .single name => [name]
  | .several first between _ last => first :: (between.map Prod.snd ++ [last])

/-- Points separate the names of a path, since no name has one in it. -/
theorem splitAll_spelled (path : TypePath) :
    Text.splitAll '.' (path.spelled fun _ => ['.']) = path.names.map (·.1.toList) := by
  have alone : ∀ name : Identifier, Text.splitAll '.' name.1.toList = [name.1.toList] :=
    fun name => Text.splitAll_of_not_mem (name.2.not_mem (by decide))
  cases path with
  | single name => exact alone name
  | several first between separator last =>
      change Text.splitAll '.' (first.1.toList ++
          (between.flatMap (fun step => '.' :: step.2.1.toList) ++ '.' :: last.1.toList)) =
        first.1.toList :: (between.map Prod.snd ++ [last]).map (·.1.toList)
      induction between generalizing first with
      | nil =>
          rw [List.flatMap_nil, List.nil_append, Text.splitAll_append, alone, alone]
          rfl
      | cons step between ih =>
          rw [List.flatMap_cons, List.append_assoc, List.cons_append, Text.splitAll_append, alone,
            ih step.2]
          rfl

theorem segments_spelled (path : TypePath) :
    segments (path.spelled fun _ => ['.']) = path.names.map (·.1.toList) := by
  rw [segments, splitAll_spelled, List.filter_eq_self]
  intro part among
  obtain ⟨name, _, rfl⟩ := List.mem_map.mp among
  simpa using name.2.ne_nil

/-- Comparing characters with the words for the own unit is comparing texts with them. -/
theorem contains_ownUnit (name : String) :
    ownUnit.contains name.toList = decide (name ∈ ownWords) := by
  have mapped : ownUnit = ownWords.map String.toList := rfl
  rw [mapped, List.contains_eq_mem, decide_eq_decide, List.mem_map]
  constructor
  · rintro ⟨word, listed, same⟩
    rw [← String.toList_inj.mp same]
    exact listed
  · intro listed
    exact ⟨name, listed, rfl⟩

/-- The reference that is read from the names of a path is the one that the path is meant to
have. -/
theorem pathReference_segments (path : TypePath) :
    pathReference (segments (path.spelled fun _ => ['.'])) = path.reference.toList := by
  rw [segments_spelled]
  cases path with
  | single name => rfl
  | several first between separator last =>
      rw [TypePath.names, List.map_cons, List.map_append, pathReference, List.map_singleton,
        List.getLast?_concat]
      dsimp only
      rw [contains_ownUnit, TypePath.reference]
      by_cases own : first.1 ∈ ownWords
      · rw [if_pos own, if_pos (decide_eq_true own)]
      · rw [if_neg own, if_neg (by simpa using own)]
        simp

/-- The text of a type follows its layers from the outside to the inside. -/
theorem fieldText_eq (text : List Char) :
    fieldText text = match layer text with
      | .sequence inner => '[' :: ']' :: fieldText inner
      | .pointer inner => '*' :: fieldText inner
      | .path bare => pathReference (segments bare) := by
  rw [fieldText]
  split <;> rename_i same <;> rw [same]

/-- However the names of paths are separated, the normal form is the same. -/
theorem fieldText_spelled {write : Separator → List Char} (pointing : Pointing write)
    (type : WrittenType) : fieldText (type.spelled write) = type.normal.toList := by
  -- with a layer the separators change to points too, so this is about all ways to write them
  induction type generalizing write with
  | bare path =>
      rw [fieldText_eq, layer_spelled pointing]
      exact pathReference_segments path
  | wrapped wrapper argument ih =>
      rw [fieldText_eq, layer_spelled pointing, WrittenType.normal, String.toList_append,
        ← ih pointing_point]
      cases wrapper <;> rfl

/-- The program gives a type its normal form if the separators are the ones that were written. -/
theorem fieldText_text (type : WrittenType) : fieldText type.text = type.normal.toList :=
  fieldText_spelled pointing_text type

/-! ## Members of written types -/

/-- References have none of the marks of maps, sequences and pointers. -/
theorem unmarked_reference (path : TypePath) : TypeText.Unmarked path.reference := by
  cases path with
  | single name => exact name.2.unmarked
  | several first between separator last =>
      rw [TypePath.reference]
      split
      · exact last.2.unmarked
      · exact Source.unmarked_qualified first.2.unmarked last.2.unmarked

/-- The normal form is the text of the tree that the type stands for. -/
theorem written_normal (type : WrittenType) :
    TypeText.Written type.tree type.normal.toList := by
  induction type with
  | bare path => exact .name (unmarked_reference path)
  | wrapped wrapper argument ih =>
      rw [WrittenType.normal, String.toList_append]
      cases wrapper with
      | vec => exact .sequence ih
      | option => exact .pointer ih
      | box => exact .pointer ih

/-- The member that is made from a type in a directive has the structure of the type. -/
theorem ofTypeText_fieldText (type : WrittenType) (info : MemberInfo) :
    Member.ofTypeText (fieldText type.text) info = type.tree.member info := by
  rw [fieldText_text]
  exact (written_normal type).ofTypeText_eq info

/-! ## The same type in a source file -/

open Source (TypeExpr UseTable Binding IsLocal)

/-- The path as the type of a field. -/
def TypePath.typeExpr : TypePath → TypeExpr
  | .single name => .path none name []
  | .several first _ _ last => .path (some first) last []

/-- The type as the type of a field. -/
def WrittenType.typeExpr : WrittenType → TypeExpr
  | .bare path => path.typeExpr
  | .wrapped wrapper argument => .path none wrapper.name [argument.typeExpr]

/-- The path inside of all wrappers. -/
def WrittenType.core : WrittenType → TypePath
  | .bare path => path
  | .wrapped _ argument => argument.core

section Lowered

variable (crates : Table ImportPath) (bindings : List Binding)

/-- Only whole dependencies are imported under the name. -/
def Unshadowed (name : String) : Prop :=
  ∀ binding ∈ bindings, binding.name = name → binding.Enters crates →
    ∃ dependency, binding.path = [dependency]

/-- A path that means in a source file what it means in a directive: it begins with a dependency
that is not shadowed, or with a word for the unit itself that is neither a dependency nor bound to
one, or it is a name that is neither imported nor a type parameter. -/
def TypePath.Alike (parameters : List String) : TypePath → Prop
  | .single name => name.1 ∉ parameters ∧ Unshadowed crates bindings name
  | .several first _ _ _ =>
    if first.1 ∈ ownWords then IsLocal crates bindings first
    else crates.has first = true ∧ Unshadowed crates bindings first

end Lowered

section Lowered

variable {crates : Table ImportPath} {bindings : List Binding} {name : String}

/-- A binding of another name, or one that enters nothing, does not change what is known of a
name. -/
theorem at?_record_of_not_enters {table : UseTable} {binding : Binding}
    (outside : binding.name = name → ¬ binding.Enters crates) :
    (UseTable.record crates table binding).at? name = table.at? name := by
  cases leads : binding.path with
  | nil => rw [UseTable.record, leads]
  | cons first rest =>
      rw [UseTable.at?_record table leads, if_neg]
      rintro ⟨same, named, known⟩
      exact outside same ⟨same ▸ named, first, rest, leads, known⟩

/-- A binding to a whole dependency makes the name lead to it, whatever was bound before. -/
theorem at?_record_of_whole {table : UseTable} {binding : Binding} (same : binding.name = name)
    (enters : binding.Enters crates) (whole : ∃ dependency, binding.path = [dependency]) :
    (UseTable.record crates table binding).at? name = (some name, none) := by
  obtain ⟨dependency, leads⟩ := whole
  obtain ⟨named, first, rest, split, known⟩ := enters
  rw [leads] at split
  cases split
  rw [UseTable.at?_record table leads, if_pos ⟨same, same ▸ named, known⟩]
  rfl

theorem ofBindings_concat (bindings : List Binding) (binding : Binding) :
    UseTable.ofBindings crates (bindings ++ [binding]) =
      UseTable.record crates (UseTable.ofBindings crates bindings) binding := by
  rw [UseTable.ofBindings, List.foldl_concat, UseTable.ofBindings]

/-- Without bindings a name leads to the dependency of that name, if there is one. -/
theorem at?_ofBindings_nil :
    (UseTable.ofBindings crates []).at? name =
      (if crates.has name = true then some name else none, none) := by
  refine (UseTable.at?_ofCrates name).trans ?_
  rw [Table.has]
  cases crates.get? name with
  | none => rfl
  | some path => rfl

/-- A name that is not shadowed stands for itself, or has no entry. -/
theorem at?_ofBindings (unshadowed : Unshadowed crates bindings name) :
    (UseTable.ofBindings crates bindings).at? name = (some name, none) ∨
      crates.has name = false ∧ (UseTable.ofBindings crates bindings).at? name = (none, none) := by
  induction bindings using List.reverseRecOn with
  | nil =>
      rw [at?_ofBindings_nil]
      cases known : crates.has name with
      | true => exact Or.inl rfl
      | false => exact Or.inr ⟨rfl, rfl⟩
  | append_singleton bindings binding ih =>
      rw [ofBindings_concat]
      -- the last import that counts decides
      by_cases counts : binding.name = name ∧ binding.Enters crates
      · have whole := unshadowed binding (by simp) counts.1 counts.2
        exact Or.inl (at?_record_of_whole counts.1 counts.2 whole)
      · rw [at?_record_of_not_enters fun same enters => counts ⟨same, enters⟩]
        exact ih fun other among => unshadowed other (List.mem_append_left _ among)

/-- A name that belongs to the own unit has no entry in the table. -/
theorem at?_ofBindings_of_isLocal (own : IsLocal crates bindings name) :
    (UseTable.ofBindings crates bindings).at? name = (none, none) := by
  obtain ⟨unknown, apart⟩ := own
  induction bindings using List.reverseRecOn with
  | nil =>
      rw [at?_ofBindings_nil, unknown]
      rfl
  | append_singleton bindings binding ih =>
      rw [ofBindings_concat, at?_record_of_not_enters (apart binding (by simp))]
      exact ih fun other among => apart other (List.mem_append_left _ among)

/-- A single name that nothing shadows is written as it is. -/
theorem nameText_of_unshadowed (unshadowed : Unshadowed crates bindings name) :
    (UseTable.ofBindings crates bindings).nameText name = name := by
  rcases at?_ofBindings unshadowed with itself | ⟨_, absent⟩
  · obtain ⟨qualified, undeclared⟩ := Prod.ext_iff.mp itself
    dsimp only [UseTable.at?] at qualified undeclared
    rw [UseTable.nameText, qualified, undeclared]
    exact if_pos rfl
  · obtain ⟨unqualified, undeclared⟩ := Prod.ext_iff.mp absent
    dsimp only [UseTable.at?] at unqualified undeclared
    rw [UseTable.nameText, unqualified, undeclared]
    rfl

/-- Where the first name of a path belongs to the own unit, only the last one is written. -/
theorem pathText_of_isLocal (own : IsLocal crates bindings name) (last : String) :
    (UseTable.ofBindings crates bindings).pathText name last = last := by
  have unqualified : (UseTable.ofBindings crates bindings).qualifiers.get? name = none :=
    congrArg Prod.fst (at?_ofBindings_of_isLocal own)
  rw [UseTable.pathText, unqualified]

/-- Where the first name of a path is a dependency, it becomes the qualifier. -/
theorem pathText_of_dependency (known : crates.has name = true)
    (unshadowed : Unshadowed crates bindings name) (last : String) :
    (UseTable.ofBindings crates bindings).pathText name last = name ++ "." ++ last := by
  rcases at?_ofBindings unshadowed with itself | ⟨unknown, _⟩
  · exact UseTable.pathText_of_at? itself
  · rw [known] at unknown
    cases unknown

variable {parameters : List String}

theorem not_isFamily_zero (name : String) : ¬ Source.IsFamily name 0 := by
  simp [Source.IsFamily]

/-- In files where names mean what they do in directives, a path is written as its reference. -/
theorem text_path {path : TypePath} (alike : path.Alike crates bindings parameters) :
    path.typeExpr.text (UseTable.ofBindings crates bindings) parameters = path.reference := by
  cases path with
  | single name =>
      rw [TypePath.typeExpr, TypeExpr.text_single (not_isFamily_zero _) alike.1]
      exact nameText_of_unshadowed alike.2
  | several first between separator last =>
      rw [TypePath.typeExpr, TypeExpr.text_several (not_isFamily_zero _), TypePath.reference]
      unfold TypePath.Alike at alike
      dsimp only at alike
      split at alike
      · rename_i own
        rw [if_pos own]
        exact pathText_of_isLocal alike last
      · rename_i foreign
        rw [if_neg foreign]
        exact pathText_of_dependency alike.1 alike.2 last

theorem familyText?_wrapper (wrapper : Wrapper) (argument : String) :
    Source.familyText? wrapper.name [argument] = some (wrapper.marker ++ argument) := by
  cases wrapper <;> rfl

/-- In files where names mean what they do in directives, the type of a field has the normal form
that the same type has in a directive. -/
theorem text_typeExpr {type : WrittenType}
    (alike : type.core.Alike crates bindings parameters) :
    type.typeExpr.text (UseTable.ofBindings crates bindings) parameters = type.normal := by
  induction type with
  | bare path => exact text_path alike
  | wrapped wrapper argument ih =>
      rw [WrittenType.typeExpr, TypeExpr.text, TypeExpr.texts, TypeExpr.texts, ih alike,
        familyText?_wrapper]
      rfl

end Lowered

end Directive

end ApiDocs
