import ApiDocs.Proofs.Directive
import ApiDocs.Proofs.Text.Occurrence

/-!
# What becomes of the lines of a block

A line is of the first kind whose pattern stands in it (`kind?_read`). A parameter or response line
in which an earlier pattern stands too, be it in the quoted description, is therefore taken for
something else and leaves nothing of its own behind, not even a notice. All other lines with a
parameter or a response are accounted for (`annotation_lines_accounted`).
-/

namespace ApiDocs.Directive

open Text Text.Pattern

/-! ## Kinds of lines -/

/-- What a line can be about. -/
inductive Kind where
  | accept
  | description
  | parameter
  | response
  | route
  | title
deriving DecidableEq

namespace Kind

/-- How lines of the kind are written. -/
def pattern : Kind → Pattern
  | accept => tokenPattern "@Accept" isContentChar
  | description => textPattern "@Description"
  | parameter => parameterPattern
  | response => responsePattern
  | route => routePattern
  | title => textPattern "@Title"

/-- The kinds in the order in which they are tried. -/
def inOrder : List Kind := [accept, description, parameter, response, route, title]

/-- The kinds that are tried before this one. -/
def before (kind : Kind) : List Kind := inOrder.takeWhile (· ≠ kind)

/-- The line is written as a line of this kind, but as one of an earlier kind too. -/
def IsTaken (kind : Kind) (line : List Char) : Prop :=
  kind.pattern.StandsIn line ∧ ∃ earlier ∈ kind.before, earlier.pattern.StandsIn line

/-- The line is written as a line of this kind and of no earlier one. -/
def Has (kind : Kind) (line : List Char) : Prop :=
  kind.pattern.StandsIn line ∧ ∀ earlier ∈ kind.before, ¬ earlier.pattern.StandsIn line

instance (kind : Kind) : DecidablePred kind.IsTaken := fun line =>
  inferInstanceAs (Decidable (kind.pattern.StandsIn line ∧
    ∃ earlier ∈ kind.before, earlier.pattern.StandsIn line))

instance (kind : Kind) : DecidablePred kind.Has := fun line =>
  inferInstanceAs (Decidable (kind.pattern.StandsIn line ∧
    ∀ earlier ∈ kind.before, ¬ earlier.pattern.StandsIn line))

/-- Each kind stands in the order after the kinds before it. -/
theorem inOrder_eq (kind : Kind) : ∃ after, inOrder = kind.before ++ kind :: after := by
  cases kind <;> exact ⟨_, rfl⟩

/-- The first pattern that stands in a line is that of the kind which the line has. -/
theorem find?_inOrder_eq_some_iff {kind : Kind} {line : List Char} :
    (inOrder.find? fun kind => kind.pattern.StandsIn line) = some kind ↔ kind.Has line := by
  rw [List.find?_eq_some_iff_append, decide_eq_true_eq, Has]
  refine and_congr_right fun stands => ?_
  constructor
  · intro found
    obtain ⟨earlier, after, split, refused⟩ := found
    have other : ∀ tried ∈ earlier, decide (tried ≠ kind) = true := by
      intro tried among
      refine decide_eq_true fun same => ?_
      subst same
      simpa [stands] using refused tried among
    have first : kind.before = earlier := by
      rw [before, split, List.takeWhile_append_of_pos other]
      simp
    rw [first]
    simpa using refused
  · intro refused
    obtain ⟨after, split⟩ := kind.inOrder_eq
    exact ⟨kind.before, after, split, by simpa using refused⟩

/-- A line is taken from a kind if it fits the pattern without having the kind. -/
theorem isTaken_iff {kind : Kind} {line : List Char} :
    kind.IsTaken line ↔ kind.pattern.StandsIn line ∧ ¬ kind.Has line := by
  unfold IsTaken Has
  refine and_congr_right fun stands => ?_
  simp [stands]

/-- A line in which the pattern of a kind stands has this kind or is taken. -/
theorem countP_has_add_countP_isTaken (kind : Kind) (lines : List (List Char)) :
    lines.countP (fun line => kind.Has line) + lines.countP (fun line => kind.IsTaken line) =
      lines.countP fun line => kind.pattern.StandsIn line := by
  have stands : ∀ line, kind.Has line → kind.pattern.StandsIn line := fun _ has => has.1
  rw [List.countP_eq_countP_filter_add lines (fun line => kind.pattern.StandsIn line)
    fun line => kind.Has line, List.countP_filter, List.countP_filter]
  refine congrArg₂ (· + ·) (List.countP_congr fun line _ => ?_)
    (List.countP_congr fun line _ => ?_)
  · simpa using stands line
  · simp [isTaken_iff]

end Kind

/-- The kind of what a line says. -/
def Line.kind? : Line → Option Kind
  | .accept _ => some .accept
  | .description _ => some .description
  | .parameter _ => some .parameter
  | .badLocation _ _ => some .parameter
  | .response _ => some .response
  | .badStatus _ => some .response
  | .route _ _ => some .route
  | .title _ => some .title
  | .other => none

/-! ## Readers of lines -/

/-- What a reader finds is of its kind, and it finds something exactly if the pattern of the kind
stands in the line. -/
structure Reads (kind : Kind) (line : List Char) (found : Option Line) : Prop where
  isSome_iff : found.isSome = true ↔ kind.pattern.StandsIn line
  kind_eq : ∀ said ∈ found, said.kind? = some kind

/-- A reader says what kind it found, exactly where the pattern of the kind stands. -/
theorem Reads.map_kind? {kind : Kind} {line : List Char} {found : Option Line}
    (reads : Reads kind line found) :
    found.map Line.kind? = if kind.pattern.StandsIn line then some (some kind) else none := by
  cases found with
  | none =>
      have absent : ¬ kind.pattern.StandsIn line := mt reads.isSome_iff.mpr nofun
      rw [if_neg absent]
      rfl
  | some said =>
      rw [if_pos (reads.isSome_iff.mp rfl), Option.map_some, reads.kind_eq said rfl]

/-- A reader goes by the captures of its pattern, of which there are as many as the pattern has
capturing pieces. -/
theorem reads_of_captures {kind : Kind} {line : List Char} {found : Option Line}
    (absent : kind.pattern.captures line = none → found = none)
    (present : ∀ captured, kind.pattern.captures line = some captured →
      captured.length = kind.pattern.admitted.length →
      ∃ said, found = some said ∧ said.kind? = some kind) :
    Reads kind line found := by
  have stands : kind.pattern.StandsIn line ↔ (kind.pattern.captures line).isSome = true :=
    occurs_iff_standsIn.symm
  cases captures : kind.pattern.captures line with
  | none =>
      rw [captures] at stands
      rw [absent captures]
      exact ⟨iff_of_false nofun (mt stands.mp nofun), nofun⟩
  | some captured =>
      rw [captures] at stands
      have all := (admits_of_captures captures).length_eq.symm
      obtain ⟨said, rfl, ofKind⟩ := present captured captures all
      refine ⟨iff_of_true rfl (stands.mpr rfl), ?_⟩
      intro result same
      cases same
      exact ofKind

theorem exists_five {α : Type} {list : List α} (five : list.length = 5) :
    ∃ a b c d e, list = [a, b, c, d, e] := by
  match list with
  | [a, b, c, d, e] => exact ⟨a, b, c, d, e, rfl⟩

/-- One word with a token or a text after it. -/
theorem reads_captured? {kind : Kind} {word : String} {member : Char → Bool}
    (written : kind.pattern = tokenPattern word member) (say : List Char → Line)
    (ofKind : ∀ text, (say text).kind? = some kind) (line : List Char) :
    Reads kind line ((captured? kind.pattern line).map say) := by
  apply reads_of_captures
  · intro captures
    rw [captured?, captures]
    rfl
  · intro captured captures one
    rw [written] at one
    obtain ⟨text, rfl⟩ := List.length_eq_one_iff.mp one
    refine ⟨say text, ?_, ofKind text⟩
    rw [captured?, captures]
    rfl

/-- The line of a parameter is read if and only if its pattern stands in it. -/
theorem reads_parameterLine? (unit : ImportPath) (line : List Char) :
    Reads .parameter line (parameterLine? unit line) := by
  apply reads_of_captures
  · intro captures
    unfold Kind.pattern at captures
    rw [parameterLine?, captures]
  · intro captured captures five
    obtain ⟨name, location, type, required, description, rfl⟩ := exists_five five
    unfold Kind.pattern at captures
    rw [parameterLine?, captures]
    refine ⟨_, rfl, ?_⟩
    unfold readParameter
    split <;> rfl

/-- The line of a response is read if and only if its pattern stands in it. -/
theorem reads_responseLine? (unit : ImportPath) (line : List Char) :
    Reads .response line (responseLine? unit line) := by
  apply reads_of_captures
  · intro captures
    unfold Kind.pattern at captures
    rw [responseLine?, captures]
  · intro captured captures five
    obtain ⟨outcome, code, kind, type, description, rfl⟩ := exists_five five
    unfold Kind.pattern at captures
    rw [responseLine?, captures]
    refine ⟨_, rfl, ?_⟩
    unfold readResponse
    split <;> rfl

theorem reads_routeLine? (line : List Char) : Reads .route line (routeLine? line) := by
  apply reads_of_captures
  · intro captures
    unfold Kind.pattern at captures
    rw [routeLine?, captures]
  · intro captured captures two
    obtain ⟨path, method, rfl⟩ := List.length_eq_two.mp two
    unfold Kind.pattern at captures
    rw [routeLine?, captures]
    exact ⟨_, rfl, rfl⟩

/-- A line is of the first kind whose pattern stands in it. -/
theorem kind?_read (unit : ImportPath) (line : List Char) :
    (Line.read unit line).kind? = Kind.inOrder.find? fun kind => kind.pattern.StandsIn line := by
  have accepts : Reads .accept line ((lineToken? "@Accept" isContentChar line).map .accept) := by
    unfold lineToken?
    rw [Option.map_map]
    exact reads_captured? rfl _ (fun _ => rfl) line
  have describes : Reads .description line ((lineText? "@Description" line).map .description) := by
    unfold lineText?
    rw [Option.map_map]
    exact reads_captured? rfl _ (fun _ => rfl) line
  have titles : Reads .title line ((lineText? "@Title" line).map .title) := by
    unfold lineText?
    rw [Option.map_map]
    exact reads_captured? rfl _ (fun _ => rfl) line
  unfold Line.read
  rw [← Option.getD_map Line.kind?]
  simp only [Option.map_or, accepts.map_kind?, describes.map_kind?, titles.map_kind?,
    (reads_parameterLine? unit line).map_kind?, (reads_responseLine? unit line).map_kind?,
    (reads_routeLine? line).map_kind?]
  simp only [Kind.inOrder, List.find?_cons, List.find?_nil]
  generalize Kind.pattern = pattern
  by_cases accept : (pattern .accept).StandsIn line
  · simp [accept]
  by_cases description : (pattern .description).StandsIn line
  · simp [accept, description]
  by_cases parameter : (pattern .parameter).StandsIn line
  · simp [accept, description, parameter]
  by_cases response : (pattern .response).StandsIn line
  · simp [accept, description, parameter, response]
  by_cases route : (pattern .route).StandsIn line
  · simp [accept, description, parameter, response, route]
  by_cases title : (pattern .title).StandsIn line
  · simp [accept, description, parameter, response, route, title]
  · simp [accept, description, parameter, response, route, title, Line.kind?]

/-- A line is read as the kind whose pattern is the first to stand in it. -/
theorem kind?_read_eq_some_iff {unit : ImportPath} {line : List Char} {kind : Kind} :
    (Line.read unit line).kind? = some kind ↔ kind.Has line := by
  rw [kind?_read, Kind.find?_inOrder_eq_some_iff]

/-! ## Accounts of a block -/

/-- The notice is about the location of a parameter. -/
def isLocationNotice : Notice → Bool
  | .unknownLocation _ _ => true
  | _ => false

/-- The notice is about a status code. -/
def isStatusNotice : Notice → Bool
  | .unusableStatus _ => true
  | _ => false

theorem countP_contentTypeNotices {about : Notice → Bool}
    (other : ∀ name, about (.unknownContentType name) = false) (name : String) :
    (contentTypeNotices name).countP about = 0 := by
  unfold contentTypeNotices
  split
  · rfl
  · simp [other]

/-- A line of a kind gives either a part or a notice, and other lines give neither. -/
def Single {α : Type} (kind : Kind) (part? : Line → Option α) (about : Notice → Bool) : Prop :=
  ∀ said : Line, (part? said).toList.length + said.notices.countP about =
    if said.kind? = some kind then 1 else 0

/-- A line of a parameter gives a parameter or a notice about its location, and never both. -/
theorem single_parameter : Single .parameter Line.parameter? isLocationNotice := by
  intro said
  cases said with
  | accept name => exact (Nat.zero_add _).trans (countP_contentTypeNotices (fun _ => rfl) name)
  | _ => simp [Line.parameter?, Line.kind?, Line.notices, isLocationNotice]

/-- A line of a response gives a response or a notice about its status, and never both. -/
theorem single_response : Single .response Line.response? isStatusNotice := by
  intro said
  cases said with
  | accept name => exact (Nat.zero_add _).trans (countP_contentTypeNotices (fun _ => rfl) name)
  | _ => simp [Line.response?, Line.kind?, Line.notices, isStatusNotice]

/-- Summed over all lines, parts and notices account for the lines of the kind. -/
theorem Single.sum {α : Type} {kind : Kind} {part? : Line → Option α} {about : Notice → Bool}
    (single : Single kind part? about) (said : List Line) :
    (said.filterMap part?).length + (said.flatMap Line.notices).countP about =
      said.countP fun line => line.kind? = some kind := by
  induction said with
  | nil => rfl
  | cons line said ih =>
      have own := single line
      have parts : ((line :: said).filterMap part?).length =
          (part? line).toList.length + (said.filterMap part?).length := by
        rw [List.filterMap_cons]
        cases part? line with
        | none => simp
        | some part => simp [Nat.add_comm]
      rw [parts, List.flatMap_cons, List.countP_append, List.countP_cons, ← ih]
      simp only [decide_eq_true_eq]
      omega

/-- The other notices of a block come from its lines one by one. -/
theorem countP_blockNotices {about : Notice → Bool} (other : ∀ unit, about (.noRoute unit) = false)
    (block : CommentBlock) :
    (Operation.blockNotices block).countP about =
      ((CommentBlock.operationLines block).flatMap Line.notices).countP about := by
  unfold Operation.blockNotices
  rw [List.countP_append]
  split
  · rfl
  · simp [other]

/-- The parts and the notices of a kind make up the lines in which its pattern stands, but for those
that are taken. -/
theorem Single.account {α : Type} {kind : Kind} {part? : Line → Option α} {about : Notice → Bool}
    (single : Single kind part? about) (other : ∀ unit, about (.noRoute unit) = false)
    (block : CommentBlock) :
    ((CommentBlock.operationLines block).filterMap part?).length +
        (Operation.blockNotices block).countP about +
        (lines block.text.toList).countP (fun line => kind.IsTaken line) =
      (lines block.text.toList).countP fun line => kind.pattern.StandsIn line := by
  rw [countP_blockNotices other, single.sum, CommentBlock.operationLines, List.countP_map,
    ← kind.countP_has_add_countP_isTaken]
  simp only [Function.comp_def, kind?_read_eq_some_iff]

/-- No line is taken from a kind if those that fit its pattern fit no earlier one. -/
theorem Kind.countP_isTaken_eq_zero_iff (kind : Kind) (lines : List (List Char)) :
    lines.countP (fun line => kind.IsTaken line) = 0 ↔
      ∀ line ∈ lines, kind.pattern.StandsIn line →
        ∀ earlier ∈ kind.before, ¬ earlier.pattern.StandsIn line := by
  rw [List.countP_eq_zero]
  refine forall₂_congr fun line _ => ?_
  rw [decide_eq_true_eq, IsTaken]
  simp only [not_and, not_exists]

theorem isSome_route?_iff {said : Line} :
    said.route?.isSome = true ↔ said.kind? = some .route := by
  cases said <;> simp [Line.route?, Line.kind?]

/-- The lines of a block give a route if one of them has that kind. -/
theorem isSome_route_iff (block : CommentBlock) :
    (lastOf Line.route? (CommentBlock.operationLines block)).isSome = true ↔
      ∃ line ∈ lines block.text.toList, Kind.route.Has line := by
  unfold lastOf CommentBlock.operationLines
  rw [List.filterMap_map, List.getLast?_isSome, Ne, List.filterMap_eq_nil_iff]
  simp only [not_forall, Function.comp_apply, ← Ne.eq_def, Option.ne_none_iff_isSome,
    isSome_route?_iff, kind?_read_eq_some_iff, exists_prop]

/-- An operation is made of every block with a route, and has the parts of its lines. -/
theorem exists_ofBlock? {block : CommentBlock}
    (usable : ∃ line ∈ lines block.text.toList, Kind.route.Has line) :
    ∃ o, Operation.ofBlock? block = some o ∧
      o.parameters = (CommentBlock.operationLines block).filterMap Line.parameter? ∧
      o.responses = (CommentBlock.operationLines block).filterMap Line.response? := by
  obtain ⟨route, routed⟩ := Option.isSome_iff_exists.mp ((isSome_route_iff block).mpr usable)
  exact ⟨_, Option.map_eq_some_iff.mpr ⟨route, routed, rfl⟩, rfl, rfl⟩

/-- In a block with a usable route line, the lines in which the parameter pattern stands are the
parameters, the notices of unknown locations and the lines that are taken for a content type or a
description. The lines in which the response pattern stands are the responses, the notices of status
codes and the lines that are taken for one of these or for a parameter. So there is a parameter or a
notice for each parameter line exactly if none is taken, and the same goes for responses. -/
theorem annotation_lines_accounted (block : CommentBlock)
    (usable : ∃ line ∈ lines block.text.toList, Kind.route.Has line) :
    ∃ o, Operation.ofBlock? block = some o ∧
      let unlocated := (Operation.blockNotices block).countP isLocationNotice
      let unusable := (Operation.blockNotices block).countP isStatusNotice
      let written (kind : Kind) :=
        (lines block.text.toList).countP fun line => kind.pattern.StandsIn line
      let taken (kind : Kind) := (lines block.text.toList).countP fun line => kind.IsTaken line
      o.parameters.length + unlocated + taken .parameter = written .parameter ∧
      o.responses.length + unusable + taken .response = written .response ∧
      (o.parameters.length + unlocated = written .parameter ↔
        ∀ line ∈ lines block.text.toList, Kind.parameter.pattern.StandsIn line →
          ∀ earlier ∈ [Kind.accept, .description], ¬ earlier.pattern.StandsIn line) ∧
      (o.responses.length + unusable = written .response ↔
        ∀ line ∈ lines block.text.toList, Kind.response.pattern.StandsIn line →
          ∀ earlier ∈ [Kind.accept, .description, .parameter],
            ¬ earlier.pattern.StandsIn line) := by
  obtain ⟨o, described, hasParameters, hasResponses⟩ := exists_ofBlock? usable
  have parameters := single_parameter.account (fun _ => rfl) block
  have responses := single_response.account (fun _ => rfl) block
  rw [← hasParameters] at parameters
  rw [← hasResponses] at responses
  refine ⟨o, described, parameters, responses, ?_, ?_⟩
  · refine Iff.trans ?_ (Kind.countP_isTaken_eq_zero_iff .parameter _)
    dsimp only
    omega
  · refine Iff.trans ?_ (Kind.countP_isTaken_eq_zero_iff .response _)
    dsimp only
    omega

/-- A block with parameters of all fates. -/
def mixedBlock : CommentBlock where
  unit := "app"
  text := "@Param a path A true \"x\"
@Param b spot A true \"x\"
@Param c path A true \"@Accept x\"
@Success 200 A A \"x\"
@Router /a [get]"

set_option maxRecDepth 100000 in
/-- One of three parameters is left out with a notice, and one without. -/
theorem annotation_lines_accounted_mixed :
    (∃ line ∈ lines mixedBlock.text.toList, Kind.route.Has line) ∧
      ∃ o, Operation.ofBlock? mixedBlock = some o ∧ o.parameters.length + 1 + 1 = 3 ∧
        o.responses.length + 0 + 0 = 1 := by
  have usable : ∃ line ∈ lines mixedBlock.text.toList, Kind.route.Has line := by decide +kernel
  obtain ⟨o, described, parameters, responses, _⟩ := annotation_lines_accounted mixedBlock usable
  have notices :
      (Operation.blockNotices mixedBlock).countP isLocationNotice = 1 ∧
      (Operation.blockNotices mixedBlock).countP isStatusNotice = 0 := by
    decide +kernel
  have counts :
      (lines mixedBlock.text.toList).countP (fun line => Kind.parameter.IsTaken line) = 1 ∧
      (lines mixedBlock.text.toList).countP (fun line => Kind.response.IsTaken line) = 0 ∧
      (lines mixedBlock.text.toList).countP (fun line => Kind.parameter.pattern.StandsIn line) = 3 ∧
      (lines mixedBlock.text.toList).countP
        (fun line => Kind.response.pattern.StandsIn line) = 1 := by
    decide +kernel
  refine ⟨usable, o, described, ?_, ?_⟩
  · dsimp only at parameters
    omega
  · dsimp only at responses
    omega

/-- A parameter whose description quotes a directive. -/
def quotingBlock : CommentBlock where
  unit := "app"
  text := "@Param id path i64 true \"see @Description x\"\n@Router /a [get]"

set_option maxRecDepth 100000 in
/-- The parameter is lost without a notice. -/
theorem quoted_directive_takes_line :
    (lines quotingBlock.text.toList).countP (fun line => Kind.parameter.pattern.StandsIn line) = 1 ∧
      (Operation.ofBlock? quotingBlock).map (fun o => (o.parameters, o.description)) =
        some ([], "x\"") ∧
      Operation.blockNotices quotingBlock = [] := by
  decide +kernel

end ApiDocs.Directive
