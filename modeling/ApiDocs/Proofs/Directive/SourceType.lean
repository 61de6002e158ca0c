import ApiDocs.Proofs.Directive.TypeName
import ApiDocs.Proofs.Source.Lexemes
import ApiDocs.Proofs.Source.Reader
import ApiDocs.Source.File

/-!
# Types of directives in source text

A type of a directive whose names are separated by colons is also the text of a field's type. Its
spellings (`WrittenType.spellings`) are what the lexer finds in that text (`lexed_spellings`), and
the grammar reads them as the type (`reads_spellings`), so the notation of such a field can be
compared with the notation that the directive gets (`directive_type_as_field`).
-/

namespace ApiDocs.Directive

open Source

/-! ## Tokens -/

open Spelling (ofName ofPunct place)

/-- The names of a path after the first. -/
def TypePath.later : TypePath → List Identifier
  | .single _ => []
  | .several _ between _ last => between.map Prod.snd ++ [last]

/-- The first name of a path. -/
def TypePath.head : TypePath → Identifier
  | .single name => name
  | .several first _ _ _ => first

/-- The spellings of the names of a path after the first. -/
def laterSpellings (names : List Identifier) : List Spelling :=
  names.flatMap fun name => [ofPunct ':' true, ofPunct ':' false, ofName name.1]

/-- The spellings of a type in source text; `joint` tells whether more punctuation follows. -/
def WrittenType.spellings (joint : Bool) : WrittenType → List Spelling
  | .bare path => ofName path.head :: laterSpellings path.later
  | .wrapped wrapper argument =>
    ofName wrapper.name :: ofPunct '<' false :: (argument.spellings true ++ [ofPunct '>' joint])

/-! ## Reading tokens -/

/-- A name that may stand in the path of a type. -/
def IsPathWord (name : String) : Prop :=
  name ∉ Ahead.keywords ∨ name ∈ ["super", "self", "Self", "crate"]

instance (name : String) : Decidable (IsPathWord name) :=
  inferInstanceAs (Decidable (name ∉ Ahead.keywords ∨ name ∈ ["super", "self", "Self", "crate"]))

/-- A word that may stand in a path is none of those that start something else. -/
theorem IsPathWord.not_mem {name : String} (isWord : IsPathWord name) {words : List String}
    (others : ∀ word ∈ words, ¬ IsPathWord word) : name ∉ words :=
  fun among => others name among isWord

/-- Nothing follows, or the bracket that closes the arguments. -/
def Closed (rest : List Source.Token) : Prop :=
  rest = [] ∨ ∃ joint stop more, rest = .punct '>' joint stop :: more

/-- The tokens begin with a name that may stand in the path of a type. -/
def StartsPath (tokens : List Source.Token) : Prop :=
  ∃ name stop more, tokens = .ident name false stop :: more ∧ IsPathWord name

section Ahead

variable {name : String} {stop : Position} {rest : List Source.Token}

/-- What comes next is a certain word if it is an identifier that is spelled so. -/
theorem ahead_word (word : String) :
    Ahead.word word (.ident name false stop :: rest) = decide (name = word) :=
  (Bool.true_and _).trans (beq_eq_decide _ _)

theorem ahead_words (words : List String) :
    Ahead.words words (.ident name false stop :: rest) = decide (name ∈ words) := by
  induction words with
  | nil => rfl
  | cons word words ih =>
      change (Ahead.word word _ || Ahead.words words _) = _
      rw [ih, ahead_word]
      simp [Bool.decide_or]

theorem ahead_ident :
    Ahead.ident (.ident name false stop :: rest) = decide (name ∉ Ahead.keywords) := by
  simp [Ahead.ident]

end Ahead

section Reading

variable {g : Grammar} {rest : List Source.Token} {name : String} {stop : Position}

/-- Whether arguments come after a name. -/
def argumentsAhead (tokens : List Source.Token) : Bool :=
  (!false && Ahead.punct "<" tokens && !Ahead.punct "<=" tokens) ||
    (Ahead.punct "::" tokens && Ahead.punct "<" (tokens.drop 2))

/-- A name without arguments is a segment of a path. -/
theorem reads_plainSegment (isWord : IsPathWord name) (alone : argumentsAhead rest = false) :
    Source.Reads (Grammar.pathSegment g false) (.ident name false stop :: rest) rest
      ⟨name, .none⟩ := by
  unfold Grammar.pathSegment
  by_cases special : name ∈ ["super", "self", "crate", "try"]
  · refine .ifAhead (by rw [ahead_words, decide_eq_true special]) ?_
    exact .bind (.anyIdent name false stop) (.pure _)
  · refine .ifNotAhead (by rw [ahead_words, decide_eq_false special]) ?_
    by_cases self : name = "Self"
    · refine .ifAhead (by rw [ahead_word, decide_eq_true self]) ?_
      exact .bind (.anyIdent name false stop) (.ifNotAhead alone (.pure _))
    · refine .ifNotAhead (by rw [ahead_word, decide_eq_false self]) ?_
      have plain : name ∉ Ahead.keywords := by
        refine isWord.resolve_right fun among => ?_
        simp only [List.mem_cons, List.not_mem_nil, or_false] at among special
        tauto
      refine .bind (.rawIdent (by rw [ahead_ident, decide_eq_true plain])) ?_
      exact .ifNotAhead alone (.pure _)

section Argument

variable {inner : List Source.Token} {type : TypeExpr} {form : TypeForm}
  {opened closed : Position} {joint : Bool}

/-- A type is a generic argument if it starts like a path, since nothing else starts so there. -/
theorem reads_genericArgument (starts : StartsPath inner)
    (onType : Source.Reads (g.type true) (inner ++ .punct '>' joint closed :: rest)
      (.punct '>' joint closed :: rest) (type, form)) :
    Source.Reads (Grammar.genericArgument g) (inner ++ .punct '>' joint closed :: rest)
      (.punct '>' joint closed :: rest) (some type) := by
  obtain ⟨word, wordStop, more, rfl, isWord⟩ := starts
  unfold Grammar.genericArgument
  refine .bind (.ahead _) (.bind (.second _) (.ifFalse rfl (.ifNotAhead ?_ (.bind onType ?_))))
  · change (!false && (word == "true" || word == "false") || false) = false
    have other : word ∉ ["true", "false"] := isWord.not_mem (by decide)
    simpa using other
  · -- after a name `=` or `:` would make it the name of an associated type
    dsimp only
    split
    · exact .ifNotPunct rfl (.ifNotPunct rfl (.pure _))
    · exact .pure _

/-- The one argument of a wrapper stands in angle brackets. -/
theorem reads_angleArguments (starts : StartsPath inner)
    (onType : Source.Reads (g.type true) (inner ++ .punct '>' joint closed :: rest)
      (.punct '>' joint closed :: rest) (type, form)) :
    Source.Reads (Grammar.angleArguments g)
      (.punct '<' false opened :: (inner ++ .punct '>' joint closed :: rest)) rest
      (.angle [type] false) := by
  have argument := reads_genericArgument starts onType
  obtain ⟨word, wordStop, more, rfl, _⟩ := starts
  have list : Source.Reads
      (Reader.separatedUntil (Ahead.punct ">") "," (Grammar.genericArgument g))
      (.ident word false wordStop :: more ++ .punct '>' joint closed :: rest)
      (.punct '>' joint closed :: rest) [some type] := by
    refine .loop fun bound enough => ?_
    obtain ⟨bound, rfl⟩ := Nat.exists_eq_succ_of_ne_zero (Nat.ne_zero_of_lt enough)
    exact .done (.ifNotAhead rfl (.bind argument (.ifAhead rfl (.pure _))))
  exact .bind (.punct rfl rfl) (.bind list (.bind (.punct rfl rfl) (.pure _)))

/-- A name with one argument between angle brackets. -/
theorem reads_segment_of_argument (plain : name ∉ Ahead.keywords) (starts : StartsPath inner)
    (onType : Source.Reads (g.type true) (inner ++ .punct '>' joint closed :: rest)
      (.punct '>' joint closed :: rest) (type, form)) :
    Source.Reads (Grammar.pathSegment g false)
      (.ident name false stop :: .punct '<' false opened ::
        (inner ++ .punct '>' joint closed :: rest)) rest
      ⟨name, .angle [type] false⟩ := by
  unfold Grammar.pathSegment
  have others : ∀ words : List String, (∀ word ∈ words, word ∈ Ahead.keywords) → name ∉ words :=
    fun words reserved among => plain (reserved name among)
  refine .ifNotAhead ?_ (.ifNotAhead ?_ (.bind (.rawIdent ?_) (.ifAhead rfl ?_)))
  · rw [ahead_words, decide_eq_false (others _ (by decide))]
  · rw [ahead_word, decide_eq_false fun same => plain (by rw [same]; decide)]
  · rw [ahead_ident, decide_eq_true plain]
  · exact .bind (.not_punct? rfl) (.bind (reads_angleArguments starts onType) (.pure _))

end Argument

/-- What follows a name does not begin arguments. -/
theorem argumentsAhead_later (names : List Identifier) (closed : Closed rest) (p : Position) :
    argumentsAhead (place p (laterSpellings names) ++ rest) = false := by
  cases names with
  | nil =>
      rcases closed with rfl | ⟨joint, stop, more, rfl⟩
      · rfl
      · rfl
  | cons name names => rfl

/-- The names after the first are read pairs of colons included, up to what cannot go on a path. -/
theorem reads_pathRest {names : List Identifier} (words : ∀ name ∈ names, IsPathWord name.1)
    (closed : Closed rest) (p : Position) (path : PathExpr) :
    Source.Reads (Grammar.pathRest g false path) (place p (laterSpellings names) ++ rest) rest
      { path with segments := path.segments ++ names.map fun name => ⟨name.1, .none⟩ } := by
  refine .loop fun bound enough => ?_
  have rounds : names.length < bound := by
    have three : (laterSpellings names).length = names.length * 3 := by
      simp [laterSpellings, List.length_flatMap]
    rw [List.length_append, Spelling.length_place, three] at enough
    omega
  clear enough
  induction names generalizing p path bound with
  | nil =>
      obtain ⟨bound, rfl⟩ := Nat.exists_eq_succ_of_ne_zero (Nat.ne_zero_of_lt rounds)
      rw [List.map_nil, List.append_nil]
      refine .done (.bind (.ahead _) (.bind (.third _) (.ifFalse ?_ (.pure _))))
      rcases closed with rfl | ⟨joint, stop, more, rfl⟩
      · rfl
      · rfl
  | cons name names ih =>
      obtain ⟨bound, rfl⟩ := Nat.exists_eq_succ_of_ne_zero (Nat.ne_zero_of_lt rounds)
      obtain ⟨isWord, others⟩ := List.forall_mem_cons.mp words
      have onward := ih others (((p.afterAll [':']).afterAll [':']).afterAll name.1.toList)
        (path.push ⟨name.1, .none⟩) bound (Nat.lt_of_succ_lt_succ rounds)
      refine .next (.bind (.ahead _) (.bind (.third _) (.ifTrue rfl
        (.bind (.punct rfl rfl) (.bind (reads_plainSegment isWord ?_) (.pure _)))))) ?_
      · exact argumentsAhead_later names closed _
      · rw [PathExpr.push, List.append_assoc] at onward
        exact onward

/-- A path from its first segment on. -/
theorem reads_typePath {tokens : List Source.Token} {segment : PathSegment}
    {names : List Identifier} {p : Position} (starts : StartsPath tokens)
    (onSegment : Source.Reads (Grammar.pathSegment g false) tokens
      (place p (laterSpellings names) ++ rest) segment)
    (words : ∀ name ∈ names, IsPathWord name.1) (closed : Closed rest) :
    Source.Reads (Grammar.typePath g) tokens rest
      ⟨false, false, segment :: names.map fun name => ⟨name.1, .none⟩⟩ := by
  obtain ⟨word, stop, more, rfl, isWord⟩ := starts
  have onPath : Source.Reads (Grammar.qualifiedPath g false) (.ident word false stop :: more) rest
      ⟨false, false, segment :: names.map fun name => ⟨name.1, .none⟩⟩ := by
    refine .ifNotPunct rfl (.bind (.not_punct? rfl) (.bind onSegment ?_))
    exact reads_pathRest words closed p ⟨false, false, [segment]⟩
  refine .bind onPath (.loop fun bound enough => ?_)
  obtain ⟨bound, rfl⟩ := Nat.exists_eq_succ_of_ne_zero (Nat.ne_zero_of_lt enough)
  have apart : Grammar.parenthesesAhead rest = false := by
    rcases closed with rfl | ⟨joint, stop, more, rfl⟩
    · rfl
    · rfl
  exact .done (.bind (.ahead _) (.ifFalse (by rw [apart, Bool.and_false]) (.pure _)))

/-- A path of one segment is a whole path if nothing follows that could go on with it. -/
theorem reads_typePath_single {tokens : List Source.Token} {segment : PathSegment}
    (starts : StartsPath tokens)
    (onSegment : Source.Reads (Grammar.pathSegment g false) tokens rest segment)
    (closed : Closed rest) :
    Source.Reads (Grammar.typePath g) tokens rest ⟨false, false, [segment]⟩ := by
  have general : Source.Reads (Grammar.pathSegment g false) tokens
      (place .start (laterSpellings []) ++ rest) segment := onSegment
  exact reads_typePath starts general (List.forall_mem_nil _) closed

/-- A path that is not qualified by a type is a type. -/
theorem reads_pathType {tokens : List Source.Token} {path : PathExpr} (closed : Closed rest)
    (onPath : Source.Reads (Grammar.typePath g) tokens rest path) (plain : path.qualified = false) :
    Source.Reads (Grammar.pathType g true false) tokens rest (path.toType, path.form) := by
  refine .bind onPath (.bind (.ahead _) (.ifFalse ?_ (.ifFalse plain (.ifNotAhead ?_
    (.ifFalse rfl (.pure _))))))
  · rcases closed with rfl | ⟨joint, stop, more, rfl⟩
    · exact Bool.and_false _
    · exact Bool.and_false _
  · rcases closed with rfl | ⟨joint, stop, more, rfl⟩
    · rfl
    · rfl

/-- What starts like a path is read as a path by the rule for types. -/
theorem reads_type {tokens : List Source.Token} {path : PathExpr} (starts : StartsPath tokens)
    (closed : Closed rest) (onPath : Source.Reads (Grammar.typePath g) tokens rest path)
    (plain : path.qualified = false) :
    Source.Reads (Grammar.typeRule g true) tokens rest (path.toType, path.form) := by
  obtain ⟨word, stop, more, rfl, isWord⟩ := starts
  have unquantified : Source.Reads (Grammar.quantifier? g) (.ident word false stop :: more)
      (.ident word false stop :: more) false := by
    refine .bind (.not_word? ?_) (.ifFalse rfl (.pure _))
    have other : word ∉ ["for"] := isWord.not_mem (by decide)
    rw [ahead_word, decide_eq_false fun same => other (List.mem_singleton.mpr same)]
  refine .get fun before _ => .bind unquantified (.bind (.ahead _) (.ifFalse rfl
    (.ifNotAhead rfl (.ifNotAhead ?_ (.ifAhead ?_ (reads_pathType closed onPath plain))))))
  · rw [ahead_words, decide_eq_false (isWord.not_mem (by decide))]
  · rw [Grammar.startsPath, ahead_ident, ahead_words]
    rcases isWord with plain | special
    · rw [decide_eq_true plain, Bool.true_or, Bool.true_or]
    · rw [decide_eq_true special, Bool.or_true, Bool.true_or]

end Reading

/-! ## Reading types -/

/-- How many wrappers there are. -/
def WrittenType.nesting : WrittenType → Nat
  | .bare _ => 0
  | .wrapped _ argument => argument.nesting + 1

/-- The form in which the type is read. -/
def WrittenType.form : WrittenType → TypeForm
  | .bare (.single _) => .name
  | .bare (.several ..) => .path
  | .wrapped .. => .name

/-- Every type starts like a path, with a name of its own or of a wrapper. -/
theorem startsPath_place (type : WrittenType)
    (words : ∀ name ∈ type.core.names, IsPathWord name.1) (joint : Bool) (p : Position)
    (rest : List Source.Token) : StartsPath (place p (type.spellings joint) ++ rest) := by
  cases type with
  | bare path =>
      refine ⟨path.head, _, _, rfl, words path.head ?_⟩
      cases path <;> exact List.mem_cons_self
  | wrapped wrapper argument =>
      refine ⟨wrapper.name, _, _, rfl, ?_⟩
      cases wrapper <;> decide

/-- Of a longer path, the first and the last name and the arguments of the last are kept. -/
theorem toType_several (rooted : Bool) (first last : PathSegment) (between : List PathSegment) :
    (PathExpr.mk false rooted (first :: (between ++ [last]))).toType =
      .path (some first.name) last.name last.arguments.types := by
  have ends : (first :: (between ++ [last])).getLast? = some last := by
    rw [← List.cons_append, List.getLast?_concat]
  unfold PathExpr.toType
  dsimp only
  rw [ends]
  cases between <;> rfl

theorem form_several (rooted : Bool) (first last : PathSegment) (between : List PathSegment) :
    (PathExpr.mk false rooted (first :: (between ++ [last]))).form = .path := by
  obtain ⟨name, arguments⟩ := first
  cases rooted <;> cases arguments <;> cases between <;> rfl

/-- A path of names is read as the type that stands for it. -/
theorem reads_bare {path : TypePath} (words : ∀ name ∈ path.names, IsPathWord name.1)
    (g : Grammar) (joint : Bool) (p : Position) {rest : List Source.Token} (closed : Closed rest) :
    Source.Reads (Grammar.typeRule g true)
      (place p (WrittenType.spellings joint (.bare path)) ++ rest) rest
      (path.typeExpr, WrittenType.form (.bare path)) := by
  have all : ∀ name ∈ path.head :: path.later, IsPathWord name.1 := by
    cases path <;> exact words
  obtain ⟨first, others⟩ := List.forall_mem_cons.mp all
  have starts : StartsPath (place p (WrittenType.spellings joint (.bare path)) ++ rest) :=
    startsPath_place (.bare path) words joint p rest
  have onPath : Source.Reads (Grammar.typePath g)
      (place p (WrittenType.spellings joint (.bare path)) ++ rest) rest
      ⟨false, false, ⟨path.head.1, .none⟩ :: path.later.map fun name => ⟨name.1, .none⟩⟩ :=
    reads_typePath starts (reads_plainSegment first (argumentsAhead_later _ closed _)) others closed
  have read := reads_type starts closed onPath rfl
  cases path with
  | single name => exact read
  | several first between separator last =>
      rw [TypePath.later, List.map_append, List.map_singleton, toType_several, form_several] at read
      exact read

/-- The tokens of a wrapped type: the argument stands before the bracket that closes. -/
theorem exists_place_wrapped (wrapper : Wrapper) (argument : WrittenType) (joint : Bool)
    (p : Position) (rest : List Source.Token) :
    ∃ inside closed, place p (WrittenType.spellings joint (.wrapped wrapper argument)) ++ rest =
      .ident wrapper.name false (p.afterAll wrapper.name.toList) :: .punct '<' false inside ::
        (place inside (argument.spellings true) ++ .punct '>' joint closed :: rest) := by
  generalize start : (p.afterAll wrapper.name.toList).afterAll ['<'] = inside
  obtain ⟨q, split⟩ := Spelling.exists_place_append inside (argument.spellings true)
    [ofPunct '>' joint]
  refine ⟨inside, q.afterAll ['>'], ?_⟩
  subst start
  change _ :: _ :: (place ((p.afterAll wrapper.name.toList).afterAll ['<'])
    (argument.spellings true ++ [ofPunct '>' joint]) ++ rest) = _
  rw [split, List.append_assoc]
  rfl

/-- The grammar reads the type off its tokens, wherever they stand. -/
theorem reads_spellings (type : WrittenType)
    (words : ∀ name ∈ type.core.names, IsPathWord name.1) {depth : Nat}
    (deep : type.nesting < depth) (joint : Bool) (p : Position) {rest : List Source.Token}
    (closed : Closed rest) :
    Source.Reads ((Grammar.upTo depth).type true) (place p (type.spellings joint) ++ rest) rest
      (type.typeExpr, type.form) := by
  obtain ⟨depth, rfl⟩ := Nat.exists_eq_succ_of_ne_zero (Nat.ne_zero_of_lt deep)
  change Source.Reads (Grammar.typeRule (Grammar.upTo depth) true) _ _ _
  induction type generalizing depth joint p rest with
  | bare path => exact reads_bare words _ joint p closed
  | wrapped wrapper argument ih =>
      obtain ⟨depth, rfl⟩ := Nat.exists_eq_succ_of_ne_zero (Nat.ne_zero_of_lt
        (Nat.lt_of_succ_lt_succ deep))
      have within : ∀ name ∈ argument.core.names, IsPathWord name.1 := words
      have plain : wrapper.name ∉ Ahead.keywords := by cases wrapper <;> decide
      have starts := startsPath_place (.wrapped wrapper argument) words joint p rest
      obtain ⟨inside, stop, tokens⟩ := exists_place_wrapped wrapper argument joint p rest
      -- the argument is read up to the bracket, which is left for the segment
      have onType := ih within true inside (Or.inr ⟨joint, stop, rest, rfl⟩) depth
        (Nat.lt_of_succ_lt_succ deep)
      have inner : StartsPath (place inside (argument.spellings true)) := by
        have whole := startsPath_place argument within true inside []
        rwa [List.append_nil] at whole
      rw [tokens] at starts ⊢
      exact reads_type starts closed
        (reads_typePath_single starts (reads_segment_of_argument plain inner onType) closed) rfl

/-! ## Text of spellings -/

/-- Only closing brackets follow. -/
def OnlyClosing (rest : List Char) : Prop := ∀ c ∈ rest, c = '>'

section Text

open Spelling (Lexed leads_ofName leads_ofPunct)

variable {rest : List Char}

/-- What only closes brackets is text of a type. -/
theorem OnlyClosing.isTypeText (closing : OnlyClosing rest) : IsTypeText rest :=
  fun c among => closing c among ▸ Or.inr (by decide)

/-- A bracket that closes ends an identifier before it. -/
theorem OnlyClosing.ends (closing : OnlyClosing rest) :
    ∀ c ∈ rest.head?, Text.isIdentContinue c = false := by
  intro c first
  rw [closing c (List.mem_of_mem_head? first)]
  decide

theorem ends_of_mark {mark : Char} (isMark : Text.isIdentContinue mark = false)
    (rest : List Char) : ∀ c ∈ (mark :: rest).head?, Text.isIdentContinue c = false := by
  intro c first
  cases first
  exact isMark

theorem isName_wrapper (wrapper : Wrapper) : IsName wrapper.name := by
  cases wrapper <;> exact ⟨by decide, by decide⟩

theorem isTypeText_name {name : String} (isName : IsName name) : IsTypeText name.toList :=
  fun c among => Or.inl (isName.continues c among)

theorem text_later_cons (name : Identifier) (names : List Identifier) :
    Spelling.text (laterSpellings (name :: names)) =
      ':' :: ':' :: (name.1.toList ++ Spelling.text (laterSpellings names)) := rfl

theorem text_wrapped (wrapper : Wrapper) (argument : WrittenType) (joint : Bool) :
    Spelling.text (WrittenType.spellings joint (.wrapped wrapper argument)) =
      wrapper.name.toList ++ '<' :: (Spelling.text (argument.spellings true) ++ ['>']) := by
  rw [WrittenType.spellings, Spelling.text_cons, Spelling.text_cons, Spelling.text_append]
  rfl

theorem isTypeText_later (names : List Identifier) :
    IsTypeText (Spelling.text (laterSpellings names)) := by
  induction names with
  | nil => exact List.forall_mem_nil _
  | cons name names ih =>
      have colon : IsTypeChar ':' := by decide
      rw [text_later_cons]
      exact List.forall_mem_cons.mpr ⟨colon, List.forall_mem_cons.mpr ⟨colon,
        List.forall_mem_append.mpr ⟨isTypeText_name name.2, ih⟩⟩⟩

/-- All characters of a type are such as stand in types, so no comment or literal can begin in
them. -/
theorem isTypeText_spellings (type : WrittenType) (joint : Bool) :
    IsTypeText (Spelling.text (type.spellings joint)) := by
  induction type generalizing joint with
  | bare path =>
      exact List.forall_mem_append.mpr ⟨isTypeText_name path.head.2, isTypeText_later path.later⟩
  | wrapped wrapper argument ih =>
      have opens : IsTypeChar '<' := by decide
      have closes : IsTypeChar '>' := by decide
      rw [text_wrapped]
      exact List.forall_mem_append.mpr ⟨isTypeText_name (isName_wrapper wrapper),
        List.forall_mem_cons.mpr ⟨opens, List.forall_mem_append.mpr ⟨ih true,
          List.forall_mem_singleton.mpr closes⟩⟩⟩

/-- A name does not begin with a sign, which could join one before it. -/
theorem startsWithPunct_name {name : String} (isName : IsName name) (rest : List Char) :
    startsWithPunct (name.toList ++ rest) = false := by
  obtain ⟨c, others, begins⟩ := List.exists_cons_of_ne_nil isName.ne_nil
  have continues := isName.continues c (begins ▸ List.mem_cons_self)
  have apart : c ≠ '/' := by
    rintro rfl
    revert continues
    decide
  rw [begins, List.cons_append, startsWithPunct_cons apart, isPunct_of_isIdentContinue continues]

theorem startsWithPunct_spellings (type : WrittenType) (joint : Bool) (rest : List Char) :
    startsWithPunct (Spelling.text (type.spellings joint) ++ rest) = false := by
  cases type with
  | bare path =>
      rw [WrittenType.spellings, Spelling.text_cons, List.append_assoc]
      exact startsWithPunct_name path.head.2 _
  | wrapped wrapper argument =>
      rw [text_wrapped, List.append_assoc]
      exact startsWithPunct_name (isName_wrapper wrapper) _

/-- The names of a path are cut into the tokens that they were spelled with. -/
theorem lexed_names (first : Identifier) (names : List Identifier) (closing : OnlyClosing rest) :
    Lexed (ofName first.1 :: laterSpellings names) rest := by
  have typed : ∀ names : List Identifier,
      IsTypeText (Spelling.text (laterSpellings names) ++ rest) := fun names =>
    List.forall_mem_append.mpr ⟨isTypeText_later names, closing.isTypeText⟩
  have named : ∀ name : Identifier, ∀ names : List Identifier,
      IsTypeText (name.1.toList ++ (Spelling.text (laterSpellings names) ++ rest)) :=
    fun name names => List.forall_mem_append.mpr ⟨isTypeText_name name.2, typed names⟩
  induction names generalizing first with
  | nil => exact ⟨leads_ofName first.2 (named first []) closing.ends, trivial⟩
  | cons name names ih =>
      have onward := ih name
      have colon : IsTypeChar ':' := by decide
      have afterColon : IsTypeText (':' :: (name.1.toList ++
          (Spelling.text (laterSpellings names) ++ rest))) :=
        List.forall_mem_cons.mpr ⟨colon, named name names⟩
      -- the first colon is joined to the second, and the second to nothing
      have second := leads_ofPunct (by decide) afterColon
      rw [startsWithPunct_name name.2, ← List.append_assoc] at second
      have afterName : IsTypeText (':' :: ':' :: (name.1.toList ++
          Spelling.text (laterSpellings names) ++ rest)) := by
        rw [List.append_assoc]
        exact List.forall_mem_cons.mpr ⟨colon, afterColon⟩
      exact ⟨leads_ofName first.2 (named first (name :: names)) (ends_of_mark (by decide) _),
        leads_ofPunct (by decide) afterName, second, onward⟩

/-- The lexer finds the spellings in their text. -/
theorem lexed_spellings (type : WrittenType) (closing : OnlyClosing rest) :
    Lexed (type.spellings (startsWithPunct rest)) rest := by
  induction type generalizing rest with
  | bare path => exact lexed_names path.head path.later closing
  | wrapped wrapper argument ih =>
      have closed : OnlyClosing ('>' :: rest) := List.forall_mem_cons.mpr ⟨rfl, closing⟩
      have inside : Lexed (argument.spellings true) ('>' :: rest) := ih closed
      have ends := leads_ofPunct (by decide) closed.isTypeText
      have within : Lexed (argument.spellings true ++ [ofPunct '>' (startsWithPunct rest)]) rest :=
        inside.append ⟨ends, trivial⟩
      have typed : IsTypeText ('<' :: (Spelling.text (argument.spellings true ++
          [ofPunct '>' (startsWithPunct rest)]) ++ rest)) := by
        rw [Spelling.text_append, List.append_assoc]
        exact List.forall_mem_cons.mpr ⟨by decide,
          List.forall_mem_append.mpr ⟨isTypeText_spellings argument true, closed.isTypeText⟩⟩
      have opens := leads_ofPunct (by decide) typed
      rw [Spelling.text_append, List.append_assoc, startsWithPunct_spellings,
        ← List.append_assoc, ← Spelling.text_append] at opens
      refine ⟨leads_ofName (isName_wrapper wrapper) ?_ (ends_of_mark (by decide) _), opens, within⟩
      exact List.forall_mem_append.mpr ⟨isTypeText_name (isName_wrapper wrapper), typed⟩

/-- The text of the tokens of a type is the type as it is written in source files. -/
theorem text_spellings (type : WrittenType) (joint : Bool) :
    Spelling.text (type.spellings joint) = type.spelled fun _ => [':', ':'] := by
  induction type generalizing joint with
  | bare path =>
      cases path with
      | single name => exact List.append_nil _
      | several first between separator last =>
          have steps : Spelling.text (laterSpellings (between.map Prod.snd)) =
              between.flatMap fun step => [':', ':'] ++ step.2.1.toList := by
            induction between with
            | nil => rfl
            | cons step between ih =>
                rw [List.map_cons, text_later_cons, ih]
                rfl
          rw [WrittenType.spellings, Spelling.text_cons, TypePath.later, laterSpellings,
            List.flatMap_append, Spelling.text_append, ← laterSpellings, steps]
          simp [WrittenType.spelled, TypePath.spelled, TypePath.head, ofName, ofPunct,
            Spelling.text]
  | wrapped wrapper argument ih => rw [text_wrapped, ih, WrittenType.spelled]

/-- A type is nested at most as deep as it has tokens, so the depth that the reader allows is
enough. -/
theorem nesting_le_length (type : WrittenType) (joint : Bool) :
    type.nesting ≤ (type.spellings joint).length := by
  induction type generalizing joint with
  | bare path => exact Nat.zero_le _
  | wrapped wrapper argument ih =>
      have inner := ih true
      rw [WrittenType.nesting, WrittenType.spellings, List.length_cons, List.length_cons,
        List.length_append]
      omega

end Text

/-! ## Types from text -/

/-- Reads the type of a field from a text that holds nothing else. -/
def typeOfText? (text : List Char) : Option TypeExpr := do
  let tokens ← tokens? text
  let (type, _) ← Reader.runAll? ((Grammar.forTokens tokens).type true) tokens
  return type

theorem length_le_sizes (tokens : List Source.Token) :
    tokens.length ≤ Source.Token.sizes tokens := by
  induction tokens with
  | nil => exact Nat.le_refl _
  | cons token tokens ih =>
      have one : 1 ≤ token.size := by
        cases token with
        | group delimiter content stop => exact Nat.le_add_right _ _
        | _ => exact Nat.le_refl _
      rw [List.length_cons, Source.Token.sizes]
      omega

/-- A type that is written in a source file is read as the expression that stands for it. -/
theorem typeOfText?_spelled (type : WrittenType)
    (words : ∀ name ∈ type.core.names, IsPathWord name.1) :
    typeOfText? (type.spelled fun _ => [':', ':']) = some type.typeExpr := by
  have typed := isTypeText_spellings type false
  have lexed : Spelling.Lexed (type.spellings false) [] :=
    lexed_spellings type (List.forall_mem_nil _)
  have tokens := Spelling.tokens?_of_lexed lexed (typed.not_mem (by decide +kernel))
  -- a wrapper takes more than one token, so the grammar is deep enough for all of them
  have deep : type.nesting <
      8 * (Source.Token.sizes (place .start (type.spellings false)) + 2) := by
    have counted := length_le_sizes (place .start (type.spellings false))
    have nested := nesting_le_length type false
    rw [Spelling.length_place] at counted
    omega
  have reads := reads_spellings type words deep false .start (Or.inl rfl)
  rw [List.append_nil] at reads
  rw [text_spellings] at tokens
  rw [typeOfText?, tokens]
  change (Reader.runAll? ((Grammar.upTo _).type true) _).bind _ = _
  rw [reads.runAll?]
  rfl

/-! ## Directives and fields -/

/-- Each wrapper becomes its marker and a path its reference, however its names are separated; the
member has a collection for each sequence and is a scalar inside. A field whose type is written with
colons has the same notation, unless something in the file hides what the path begins with. -/
theorem directive_type_as_field (type : WrittenType) :
    fieldText type.text = type.normal.toList ∧
      (∀ info, Member.ofTypeText (fieldText type.text) info = type.tree.member info) ∧
      ((∀ name ∈ type.core.names, IsPathWord name.1) →
        ∃ expr, typeOfText? (type.spelled fun _ => [':', ':']) = some expr ∧
          ∀ (crates : Table ImportPath) (bindings : List Binding) (parameters : List String),
            type.core.Alike crates bindings parameters →
            ∀ (lines : List (List Char)) (field : Field), field.type = expr →
              (FieldDecl.ofSource ⟨UseTable.ofBindings crates bindings, lines⟩ parameters
                field).typeText = .ofList (fieldText type.text)) := by
  refine ⟨fieldText_text type, ofTypeText_fieldText type, fun words =>
    ⟨type.typeExpr, typeOfText?_spelled type words, ?_⟩⟩
  intro crates bindings parameters alike lines field same
  calc (FieldDecl.ofSource ⟨UseTable.ofBindings crates bindings, lines⟩ parameters field).typeText
      = field.type.text (UseTable.ofBindings crates bindings) parameters := rfl
    _ = type.normal := by rw [same, text_typeExpr alike]
    _ = .ofList (fieldText type.text) := by rw [fieldText_text, String.ofList_toList]

/-- An optional list of pets from a dependency, with both separators. -/
def petsType : WrittenType :=
  .wrapped .option (.wrapped .vec (.bare (.several ⟨"shared", by decide, by decide⟩
    [(.point, ⟨"models", by decide, by decide⟩)] .colons ⟨"Pet", by decide, by decide⟩)))

/-- The import of `Pet` itself does not count where the path begins with the dependency. -/
theorem directive_type_as_field_pets :
    String.ofList petsType.text = "Option<Vec<shared.models::Pet>>" ∧
      ∃ expr, typeOfText? "Option<Vec<shared::models::Pet>>".toList = some expr ∧
        ∀ field : Field, field.type = expr →
          (FieldDecl.ofSource ⟨UseTable.ofBindings [("shared", "libs/shared")]
            [⟨"Pet", ["shared", "Pet"]⟩], []⟩ [] field).typeText = "*[]shared.Pet" := by
  have alike : petsType.core.Alike [("shared", "libs/shared")] [⟨"Pet", ["shared", "Pet"]⟩] [] := by
    refine ⟨by decide, fun binding among same => ?_⟩
    rw [List.mem_singleton.mp among] at same
    cases (by decide : "Pet" ≠ "shared") same
  obtain ⟨normal, _, read⟩ := directive_type_as_field petsType
  obtain ⟨expr, reads, lowered⟩ := read (by decide)
  refine ⟨by decide, expr, reads, fun field same => ?_⟩
  rw [lowered _ _ _ alike [] field same, normal]
  decide

/-- The texts of the fields of the types that a file declares. -/
def fieldTexts (crates : Table ImportPath) (source : String) : List String :=
  ((SourceFile.read "lib.rs" source).toOption.map fun file =>
    (DeclGroup.ofFiles "app" .library crates [file]).types.flatMap fun type =>
      type.fields.map FieldDecl.typeText).getD []

set_option maxRecDepth 100000 in
/-- A type parameter hides a dependency of its name, and an import one of the words for the unit
itself. -/
theorem hidden_name_differs :
    fieldTexts [("s", "libs/s")] "struct A<s>\x7bv:s\x7d" = ["any"] ∧
      String.ofList (fieldText "s".toList) = "s" ∧
      fieldTexts [("s", "libs/s")] "use s::super;struct A\x7bv:super::P\x7d" = ["s.P"] ∧
      String.ofList (fieldText "super::P".toList) = "P" := by
  decide +kernel

end ApiDocs.Directive
