import ApiDocs.Generation
import ApiDocs.Proofs.Names
import ApiDocs.Proofs.Text
import Mathlib.Data.List.Forall2
import Mathlib.Data.List.TakeWhile

/-!
# What directives refer to

The types that directives name are written with word characters, points, colons and angle
brackets, because the patterns capture nothing else (`Text.Pattern.admits_of_captures`). In the
notation of field types such a type has at most one point and no slash (`onePoint_fieldText`), so
the members of an operation refer to plain names only (`plain_of_mem_operations`).
-/

namespace ApiDocs

/-! ## Captures -/

namespace Text.Pattern

/-- What each of the capturing pieces may capture. -/
def admitted : Pattern → List (List Char → Prop)
  | [] => []
  | .oneOf texts :: pieces => (· ∈ texts) :: admitted pieces
  | .capture member :: pieces => (fun text => ∀ c ∈ text, member c = true) :: admitted pieces
  | .exactly _ :: pieces => admitted pieces
  | .anyCase _ :: pieces => admitted pieces
  | .run _ :: pieces => admitted pieces
  | .optional _ :: pieces => admitted pieces
  | .boundary :: pieces => admitted pieces

/-- Every capture is one that its piece admits. -/
def Admits (pattern : Pattern) (captured : List (List Char)) : Prop :=
  List.Forall₂ (fun admits text => admits text) (admitted pattern) captured

/-- What a search from the longest attempt down gives was found by one of the attempts. -/
theorem exists_of_longestFirst {α : Type} {attempt : Nat → Option α} {bound : Nat} {result : α}
    (found : longestFirst attempt bound = some result) :
    ∃ count, count ≤ bound ∧ attempt count = some result := by
  induction bound with
  | zero => cases found
  | succ bound ih =>
      rw [longestFirst, Option.or_eq_some_iff] at found
      rcases found with here | ⟨_, later⟩
      · exact ⟨bound + 1, Nat.le_refl _, here⟩
      · obtain ⟨count, below, succeeds⟩ := ih later
        exact ⟨count, Nat.le_succ_of_le below, succeeds⟩

theorem forall_mem_take {member : Char → Bool} {text : List Char} {count : Nat}
    (within : count ≤ (text.takeWhile member).length) : ∀ c ∈ text.take count, member c = true := by
  intro c among
  have initial : text.take count = (text.takeWhile member).take count := by
    conv_lhs => rw [← List.takeWhile_append_dropWhile (p := member) (l := text)]
    rw [List.take_append_of_le_length within]
  rw [initial] at among
  exact List.mem_takeWhile_imp (List.mem_of_mem_take among)

/-- What a pattern captures consists of characters of its classes. -/
theorem admits_of_fitHere {pattern : Pattern} {before : Option Char} {rest : List Char}
    {captured : List (List Char)} (fits : fitHere pattern before rest = some captured) :
    Admits pattern captured := by
  induction pattern generalizing before rest captured with
  | nil =>
      cases fits
      exact .nil
  | cons piece pieces ih =>
      cases piece with
      | exactly text =>
          obtain ⟨remaining, _, later⟩ := Option.bind_eq_some_iff.mp fits
          exact ih later
      | anyCase text =>
          obtain ⟨remaining, _, later⟩ := Option.bind_eq_some_iff.mp fits
          exact ih later
      | oneOf texts =>
          obtain ⟨text, among, fitted⟩ := List.exists_of_findSome?_eq_some fits
          obtain ⟨remaining, _, later⟩ := Option.bind_eq_some_iff.mp fitted
          obtain ⟨inner, fitsInner, rfl⟩ := Option.map_eq_some_iff.mp later
          exact .cons among (ih fitsInner)
      | run member =>
          obtain ⟨count, _, later⟩ := exists_of_longestFirst fits
          exact ih later
      | capture member =>
          obtain ⟨count, within, later⟩ := exists_of_longestFirst fits
          obtain ⟨inner, fitsInner, rfl⟩ := Option.map_eq_some_iff.mp later
          exact .cons (forall_mem_take within) (ih fitsInner)
      | optional c =>
          unfold fitHere at fits
          rw [Option.or_eq_some_iff] at fits
          rcases fits with taken | ⟨_, skipped⟩
          · cases rest with
            | nil => cases taken
            | cons d remaining =>
                dsimp only at taken
                split at taken
                · exact ih taken
                · cases taken
          · exact ih skipped
      | boundary =>
          rw [fitHere] at fits
          split at fits
          · exact ih fits
          · cases fits

/-- Wherever it fits in a text, a pattern captures only characters of its classes. -/
theorem admits_of_captures {pattern : Pattern} {text : List Char} {captured : List (List Char)}
    (fits : pattern.captures text = some captured) : Admits pattern captured := by
  have anywhere : ∀ (rest : List Char) (before : Option Char),
      pattern.fitFrom before rest = some captured → Admits pattern captured := by
    intro rest
    induction rest with
    | nil => exact fun before found => admits_of_fitHere found
    | cons c rest ih =>
        intro before found
        rw [fitFrom, Option.or_eq_some_iff] at found
        rcases found with here | ⟨_, later⟩
        · exact admits_of_fitHere here
        · exact ih _ later
  exact anywhere text none fits

end Text.Pattern

/-! ## Field types -/

namespace Directive

/-- At most one point and no slashes. -/
structure OnePoint (text : List Char) : Prop where
  once : text.count '.' ≤ 1
  noSlash : '/' ∉ text
  noBackslash : '\\' ∉ text

/-- Only points are new in a text with points for separators. -/
theorem mem_of_mem_pointed {text : List Char} {c : Char} (among : c ∈ pointed text) :
    c = '.' ∨ c ∈ text := by
  fun_induction pointed text with
  | case1 rest ih =>
      rcases List.mem_cons.mp among with rfl | later
      · exact Or.inl rfl
      · exact (ih later).imp_right fun old => List.mem_cons_of_mem _ (List.mem_cons_of_mem _ old)
  | case2 first rest _ ih =>
      rcases List.mem_cons.mp among with rfl | later
      · exact Or.inr List.mem_cons_self
      · exact (ih later).imp_right (List.mem_cons_of_mem _)
  | case3 => cases among

theorem trim_sublist (text : List Char) : (Text.trim text).Sublist text := by
  have ending : (Text.trim text).Sublist (Text.trimStart text) := by
    rw [Text.trim, Text.trimEnd, Text.dropTail]
    have inner := (List.dropWhile_sublist Text.isBlank (l := (Text.trimStart text).reverse)).reverse
    rwa [List.reverse_reverse] at inner
  exact ending.trans (List.dropWhile_sublist _)

/-- The argument of a wrapper is part of the text. -/
theorem sublist_of_argument? {wrapper text inner : List Char}
    (found : argument? wrapper text = some inner) : inner.Sublist text := by
  obtain ⟨afterName, named, opened⟩ := Option.bind_eq_some_iff.mp found
  obtain ⟨afterOpen, bracket, closed⟩ := Option.bind_eq_some_iff.mp opened
  obtain ⟨reversed, ends, rfl⟩ := Option.map_eq_some_iff.mp closed
  have ending : reversed.reverse.Sublist afterOpen := by
    have whole := congrArg List.reverse (TypeText.eq_append_of_after? ends)
    rw [List.reverse_reverse, List.reverse_append] at whole
    rw [whole]
    exact List.sublist_append_left _ _
  rw [TypeText.eq_append_of_after? named, TypeText.eq_append_of_after? bracket]
  exact ending.trans ((List.sublist_append_right _ _).trans (List.sublist_append_right _ _))

/-- A path of segments without points and slashes becomes a reference with one point at most. -/
theorem onePoint_pathReference {parts : List (List Char)}
    (bare : ∀ part ∈ parts, '.' ∉ part ∧ '/' ∉ part ∧ '\\' ∉ part) :
    OnePoint (pathReference parts) := by
  have single : ∀ part ∈ parts, OnePoint part := fun part among =>
    have ⟨noPoint, noSlash, noBackslash⟩ := bare part among
    ⟨by rw [List.count_eq_zero.mpr noPoint]; exact Nat.zero_le 1, noSlash, noBackslash⟩
  cases parts with
  | nil => exact ⟨Nat.zero_le 1, List.not_mem_nil, List.not_mem_nil⟩
  | cons first rest =>
      rw [pathReference]
      cases ends : rest.getLast? with
      | none => exact single first List.mem_cons_self
      | some last =>
          have inRest : last ∈ first :: rest := List.mem_cons_of_mem _ (List.mem_of_getLast? ends)
          dsimp only
          split
          · exact single last inRest
          · obtain ⟨noPoint, noSlash, noBackslash⟩ := bare first List.mem_cons_self
            obtain ⟨noPointLast, noSlashLast, noBackslashLast⟩ := bare last inRest
            refine ⟨?_, ?_, ?_⟩
            · rw [List.count_append, List.count_cons_self, List.count_eq_zero.mpr noPoint,
                List.count_eq_zero.mpr noPointLast]
            · simp [noSlash, noSlashLast]
            · simp [noBackslash, noBackslashLast]

/-- The text of a type is written with at most one point, as long as it has no slashes. -/
theorem onePoint_fieldText {text : List Char} (noSlash : '/' ∉ text) (noBackslash : '\\' ∉ text) :
    OnePoint (fieldText text) := by
  -- Taking a layer off adds no characters but points.
  have bare : ∀ {text : List Char} {c : Char}, c ≠ '.' → c ∉ text →
      c ∉ pointed (Text.trim text) := by
    intro text c noPoint absent among
    exact absent ((trim_sublist text).subset ((mem_of_mem_pointed among).resolve_left noPoint))
  have within : ∀ {text inner : List Char} {c : Char}, c ≠ '.' → c ∉ text →
      layer text = .sequence inner ∨ layer text = .pointer inner → c ∉ inner := by
    intro text inner c noPoint absent layers among
    refine bare noPoint absent (List.Sublist.subset ?_ among)
    rw [layer] at layers
    cases vector : argument? "Vec".toList (pointed (Text.trim text)) with
    | some found =>
        rw [vector] at layers
        rcases layers with same | same
        · cases same
          exact sublist_of_argument? vector
        · cases same
    | none =>
        rw [vector] at layers
        dsimp only at layers
        cases wrapped : (argument? "Option".toList (pointed (Text.trim text))).or
            (argument? "Box".toList (pointed (Text.trim text))) with
        | none =>
            rw [wrapped] at layers
            rcases layers with same | same <;> cases same
        | some found =>
            rw [wrapped] at layers
            rcases layers with same | same
            · cases same
            · cases same
              rcases Option.or_eq_some_iff.mp wrapped with optional | ⟨_, boxed⟩
              · exact sublist_of_argument? optional
              · exact sublist_of_argument? boxed
  fun_induction fieldText text with
  | case1 text inner found ih =>
      obtain ⟨once, slash, backslash⟩ := ih (within (by decide) noSlash (Or.inl found))
        (within (by decide) noBackslash (Or.inl found))
      refine ⟨?_, by simp [slash], by simp [backslash]⟩
      rw [List.count_cons_of_ne (by decide), List.count_cons_of_ne (by decide)]
      exact once
  | case2 text inner found ih =>
      obtain ⟨once, slash, backslash⟩ := ih (within (by decide) noSlash (Or.inr found))
        (within (by decide) noBackslash (Or.inr found))
      refine ⟨?_, by simp [slash], by simp [backslash]⟩
      rw [List.count_cons_of_ne (by decide)]
      exact once
  | case3 text inner found =>
      have same : inner = pointed (Text.trim text) := by
        rw [layer] at found
        split at found
        · cases found
        · split at found
          · cases found
          · cases found
            rfl
      refine onePoint_pathReference fun part among => ?_
      obtain ⟨noPoint, drawn⟩ := Text.of_mem_splitAll (List.mem_filter.mp among).1
      rw [same] at drawn
      exact ⟨noPoint, fun slash => bare (by decide) noSlash (drawn _ slash),
        fun slash => bare (by decide) noBackslash (drawn _ slash)⟩

/-! ## Operations -/

/-- The member has no targets yet, and refers to plain names only. -/
structure PlainMember (m : Member) : Prop where
  bare : m.bare = m
  references : ∀ text ∈ m.references, Plain (TypeText.reference text).name

theorem plainMember_memberOf (unit : ImportPath) (name : String) {text : List Char}
    (onePoint : OnePoint text) : PlainMember (memberOf unit name text) :=
  ⟨Member.bare_ofTypeText _ _, fun _ among =>
    Member.plain_of_mem_references onePoint.once onePoint.noSlash onePoint.noBackslash among⟩

theorem onePoint_of_typeChars {text : List Char} (typed : ∀ c ∈ text, isTypeChar c = true) :
    OnePoint (fieldText text) :=
  onePoint_fieldText (fun slash => absurd (typed _ slash) (by decide))
    fun slash => absurd (typed _ slash) (by decide)

/-- The member of a parameter is plain: it is bare, and its references have at most one point. -/
theorem plainMember_of_parameterLine? {unit : ImportPath} {line : List Char} {p : Parameter}
    (read : parameterLine? unit line = some (.parameter p)) : PlainMember p.member := by
  rw [parameterLine?] at read
  split at read
  · rename_i name location type required description captured
    have typed : ∀ c ∈ type, isTypeChar c = true := by
      have admits := Text.Pattern.admits_of_captures captured
      cases admits with
      | cons _ rest =>
          cases rest with
          | cons _ rest =>
              cases rest with
              | cons typed _ => exact typed
    rw [readParameter] at read
    split at read
    · cases read
    · cases read
      exact plainMember_memberOf unit _ (onePoint_of_typeChars typed)
  · cases read

/-- The member of a response is plain: it is bare, and its references have at most one point. -/
theorem plainMember_of_responseLine? {unit : ImportPath} {line : List Char} {r : Response}
    (read : responseLine? unit line = some (.response r)) : PlainMember r.member := by
  rw [responseLine?] at read
  split at read
  · rename_i outcome code kind type description captured
    have typed : ∀ c ∈ type, isTypeChar c = true := by
      have admits := Text.Pattern.admits_of_captures captured
      cases admits with
      | cons _ rest =>
          cases rest with
          | cons _ rest =>
              cases rest with
              | cons _ rest =>
                  cases rest with
                  | cons typed _ => exact typed
    have onePoint := onePoint_of_typeChars typed
    rw [readResponse] at read
    split at read
    · cases read
    · cases read
      refine plainMember_memberOf unit _ ?_
      split
      · refine ⟨?_, by simp [onePoint.noSlash], by simp [onePoint.noBackslash]⟩
        rw [List.count_cons_of_ne (by decide), List.count_cons_of_ne (by decide)]
        exact onePoint.once
      · exact onePoint
  · cases read

/-- What a line is read as was given by one of its readers. -/
theorem Line.read_eq {unit : ImportPath} {line : List Char} {result : Line}
    (read : Line.read unit line = result) (known : result ≠ .other) :
    (∃ name, result = .accept name) ∨ (∃ text, result = .description text) ∨
      parameterLine? unit line = some result ∨ responseLine? unit line = some result ∨
      routeLine? line = some result ∨ ∃ text, result = .title text := by
  rw [Line.read, Option.getD_eq_iff] at read
  rcases read with chosen | ⟨_, rfl⟩
  · simp only [Option.or_eq_some_iff] at chosen
    rcases chosen with ((((accepts | ⟨_, describes⟩) | ⟨_, parameter⟩) | ⟨_, response⟩) |
      ⟨_, route⟩) | ⟨_, titles⟩
    · obtain ⟨name, _, rfl⟩ := Option.map_eq_some_iff.mp accepts
      exact Or.inl ⟨name, rfl⟩
    · obtain ⟨text, _, rfl⟩ := Option.map_eq_some_iff.mp describes
      exact Or.inr (Or.inl ⟨text, rfl⟩)
    · exact Or.inr (Or.inr (Or.inl parameter))
    · exact Or.inr (Or.inr (Or.inr (Or.inl response)))
    · exact Or.inr (Or.inr (Or.inr (Or.inr (Or.inl route))))
    · obtain ⟨text, _, rfl⟩ := Option.map_eq_some_iff.mp titles
      exact Or.inr (Or.inr (Or.inr (Or.inr (Or.inr ⟨text, rfl⟩))))
  · exact absurd rfl known

theorem responseLine?_ne_parameter (unit : ImportPath) (line : List Char) (p : Parameter) :
    responseLine? unit line ≠ some (.parameter p) := by
  intro read
  rw [responseLine?] at read
  split at read
  · rw [readResponse] at read
    split at read <;> cases read
  · cases read

theorem parameterLine?_ne_response (unit : ImportPath) (line : List Char) (r : Response) :
    parameterLine? unit line ≠ some (.response r) := by
  intro read
  rw [parameterLine?] at read
  split at read
  · rw [readParameter] at read
    split at read <;> cases read
  · cases read

/-- The line of a route is read as a route and as nothing else. -/
theorem routeLine?_eq {line : List Char} {result : Line} (read : routeLine? line = some result) :
    ∃ path method, result = .route path method := by
  rw [routeLine?] at read
  split at read
  · cases read
    exact ⟨_, _, rfl⟩
  · cases read

/-- A parameter that is read from a line has a plain member. -/
theorem plainMember_of_read_parameter {unit : ImportPath} {line : List Char} {p : Parameter}
    (read : Line.read unit line = .parameter p) : PlainMember p.member := by
  rcases Line.read_eq read nofun with ⟨_, same⟩ | ⟨_, same⟩ | given | given | given | ⟨_, same⟩
  · cases same
  · cases same
  · exact plainMember_of_parameterLine? given
  · exact absurd given (responseLine?_ne_parameter unit line p)
  · obtain ⟨_, _, same⟩ := routeLine?_eq given
    cases same
  · cases same

theorem plainMember_of_read_response {unit : ImportPath} {line : List Char} {r : Response}
    (read : Line.read unit line = .response r) : PlainMember r.member := by
  rcases Line.read_eq read nofun with ⟨_, same⟩ | ⟨_, same⟩ | given | given | given | ⟨_, same⟩
  · cases same
  · cases same
  · exact absurd given (parameterLine?_ne_response unit line r)
  · exact plainMember_of_responseLine? given
  · obtain ⟨_, _, same⟩ := routeLine?_eq given
    cases same
  · cases same

/-- The members of operations refer to plain names only. -/
theorem plain_of_mem_operations {api : Api} {blocks : List CommentBlock} {o : Operation}
    (among : o ∈ operations api blocks) :
    (∀ r ∈ o.responses, PlainMember r.member) ∧ ∀ p ∈ o.parameters, PlainMember p.member := by
  obtain ⟨untagged, read, rfl⟩ := List.mem_map.mp among
  obtain ⟨block, _, described⟩ := List.mem_filterMap.mp read
  obtain ⟨route, _, rfl⟩ := Option.map_eq_some_iff.mp described
  constructor
  · intro r inBlock
    obtain ⟨line, inLines, given⟩ := List.mem_filterMap.mp inBlock
    obtain ⟨text, _, rfl⟩ := List.mem_map.mp inLines
    cases said : Line.read block.unit text with
    | response found =>
        rw [said] at given
        cases given
        exact plainMember_of_read_response said
    | _ =>
        rw [said] at given
        cases given
  · intro p inBlock
    obtain ⟨line, inLines, given⟩ := List.mem_filterMap.mp inBlock
    obtain ⟨text, _, rfl⟩ := List.mem_map.mp inLines
    cases said : Line.read block.unit text with
    | parameter found =>
        rw [said] at given
        cases given
        exact plainMember_of_read_parameter said
    | _ =>
        rw [said] at given
        cases given

end Directive

end ApiDocs
