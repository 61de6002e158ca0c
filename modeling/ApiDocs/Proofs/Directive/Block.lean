import ApiDocs.Proofs.Directive.Statement
import ApiDocs.Proofs.Member
import ApiDocs.Proofs.TypeText
import Mathlib.Data.List.Forall2

/-!
# Blocks of statements

A line with one sign only is read by one pattern only, the one of its word, and each field ends
where the next gap begins. So the line of a statement says what is stated (`Line.read_spaced`). The
operation of a block has the parts that its statements list, in whatever order the lines stand
(`operation_of_statements`).
-/

namespace ApiDocs.Directive

open Text Text.Pattern

/-! ## Reading lines -/

section Others

variable {tail : List Char} (absent : '@' ∉ tail)

include absent

theorem lineToken?_of_other {word : String} {letters : List Char}
    (spelled : word.toList = '@' :: letters) (other : after? letters tail = none)
    (member : Char → Bool) : lineToken? word member ('@' :: tail) = none := by
  rw [lineToken?, captured?, tokenPattern, spelled, captures_of_other_word absent other]
  rfl

theorem lineText?_of_other {word : String} {letters : List Char}
    (spelled : word.toList = '@' :: letters) (other : after? letters tail = none) :
    lineText? word ('@' :: tail) = none := by
  rw [lineText?, captured?, textPattern, spelled, captures_of_other_word absent other]
  rfl

theorem parameterLine?_of_other (unit : ImportPath) (other : after? "Param".toList tail = none) :
    parameterLine? unit ('@' :: tail) = none := by
  have fails : parameterPattern.captures ('@' :: tail) = none := captures_of_other_word absent other
  rw [parameterLine?, fails]

theorem routeLine?_of_other (other : after? "Router".toList tail = none) :
    routeLine? ('@' :: tail) = none := by
  have fails : routePattern.captures ('@' :: tail) = none := captures_of_other_word absent other
  rw [routeLine?, fails]

theorem responseLine?_of_other (unit : ImportPath) (noSuccess : after? "Success".toList tail = none)
    (noFailure : after? "Failure".toList tail = none) :
    responseLine? unit ('@' :: tail) = none := by
  have fails : responsePattern.captures ('@' :: tail) = none := by
    rw [responsePattern, captures_of_sign absent, fitHere, after?, if_pos rfl, after?,
      Option.bind_some, fitHere, List.findSome?_cons, noSuccess, List.findSome?_cons, noFailure]
    rfl
  rw [responseLine?, fails]

end Others

theorem outcomeWord_chosen (success : Bool) (rest : List Char) :
    ∃ before after, ["Success".toList, "Failure".toList] = before ++ outcomeWord success :: after ∧
      ∀ other ∈ before, after? other (outcomeWord success ++ rest) = none := by
  cases success with
  | true => exact ⟨[], _, rfl, List.forall_mem_nil _⟩
  | false => exact ⟨["Success".toList], [], rfl, List.forall_mem_singleton.mpr rfl⟩

theorem outcomeWord_beq (success : Bool) : (outcomeWord success == "Success".toList) = success := by
  cases success <;> rfl

section Own

variable {tail : List Char} (absent : '@' ∉ tail)

include absent

/-- A line that consists of a word and a token is read as this token. -/
theorem lineToken?_spaced {word : String} {letters : List Char}
    (spelled : word.toList = '@' :: letters) {member : Char → Bool} (solid : Solid member)
    (token : Token member) (spaced : Spaced ['@' :: letters, token.chars] ('@' :: tail)) :
    lineToken? word member ('@' :: tail) = some (.ofList token.chars) := by
  have fits : Fits [.exactly ('@' :: letters), .run isBlank, .capture member] ('@' :: tail)
      [token.chars] := by
    refine spaced.fits_word (token.begins solid) fun last => ?_
    rw [last.eq_of_single]
    exact .capture_all token.present token.all
  rw [lineToken?, captured?, tokenPattern, spelled, captures_of_fits absent fits]
  rfl

/-- A line that consists of a word and a text is read as this text. -/
theorem lineText?_spaced {word : String} {letters : List Char}
    (spelled : word.toList = '@' :: letters) (text : TrimmedText)
    (spaced : Spaced ['@' :: letters, text.chars] ('@' :: tail)) :
    lineText? word ('@' :: tail) = some (.ofList text.chars) := by
  have fits : Fits [.exactly ('@' :: letters), .run isBlank, .capture isInLine] ('@' :: tail)
      [text.chars] := by
    refine spaced.fits_word text.begins fun last => ?_
    rw [last.eq_of_single]
    exact .capture_all text.present text.all_inLine
  rw [lineText?, captured?, textPattern, spelled, captures_of_fits absent fits, Option.bind_some,
    List.head?_cons, Option.map_some, text.trimmed]

/-- The line of a parameter is read as the parameter that it states, however it is spaced. -/
theorem parameterLine?_spaced (unit : ImportPath) (p : ParameterText)
    (spaced : Spaced (Statement.parameter p).fields ('@' :: tail)) :
    parameterLine? unit ('@' :: tail) = some (.parameter (p.parameter unit)) := by
  have fits : Fits parameterPattern ('@' :: tail) [p.name.chars, p.place.word.toList, p.type.chars,
      p.required.chars, p.description.chars] :=
    spaced.fits_word (p.name.begins solid_isNameChar) fun spaced =>
    spaced.fits_token p.name solid_isNameChar (p.place.token.begins solid_isWord) fun spaced =>
    spaced.fits_token p.place.token solid_isWord (p.type.begins solid_isTypeChar) fun spaced =>
    spaced.fits_token p.type solid_isTypeChar (p.required.begins solid_isWord) fun spaced =>
    spaced.fits_token p.required solid_isWord (begins_inQuotes _) fun spaced =>
    spaced.fits_quoted p.description
  have captured : parameterPattern.captures ('@' :: tail) = _ := captures_of_fits absent fits
  rw [parameterLine?, captured]
  dsimp only
  rw [readParameter, String.ofList_toList, p.place.known]
  rfl

/-- The line of a route is read as the route that it states, however it is spaced. -/
theorem routeLine?_spaced (r : RouteText)
    (spaced : Spaced (Statement.route r).fields ('@' :: tail)) :
    routeLine? ('@' :: tail) = some (.route (.ofList r.path.chars) (.ofList r.method.chars)) := by
  have fits : Fits routePattern ('@' :: tail) [r.path.chars, r.method.chars] :=
    spaced.fits_word (r.path.begins solid_isRouteChar) fun spaced =>
    spaced.fits_token r.path solid_isRouteChar (begins_inBrackets _) fun spaced =>
    spaced.fits_bracketed r.method
  have captured : routePattern.captures ('@' :: tail) = _ := captures_of_fits absent fits
  rw [routeLine?, captured]

/-- The line of a response is read as the response that it states, however it is spaced. -/
theorem responseLine?_spaced (unit : ImportPath) (r : ResponseText)
    (spaced : Spaced (Statement.response r).fields ('@' :: tail)) :
    responseLine? unit ('@' :: tail) = some (.response (r.response unit)) := by
  have fits : Fits responsePattern ('@' :: tail) [outcomeWord r.success, (toString r.code).toList,
      r.kind.chars, r.type.chars, r.description.chars] := by
    obtain ⟨tail', same, spaced⟩ := spaced.exists_tail
    cases same
    obtain ⟨rest, rfl, _, fits⟩ := spaced.fits_gap (r.codeToken.begins solid_isDigit) fun spaced =>
      spaced.fits_token r.codeToken solid_isDigit (r.kind.begins solid_isKindChar) fun spaced =>
      spaced.fits_token r.kind solid_isKindChar (r.type.begins solid_isTypeChar) fun spaced =>
      spaced.fits_token r.type solid_isTypeChar (begins_inQuotes _) fun spaced =>
      spaced.fits_quoted r.description
    exact .exactly ['@'] (.oneOf fits (outcomeWord_chosen r.success rest))
  have captured : responsePattern.captures ('@' :: tail) = _ := captures_of_fits absent fits
  rw [responseLine?, captured]
  dsimp only
  rw [readResponse, Nat.toString_eq_repr, Nat.toList_repr, readUInt16?_toDigits r.code_lt]
  dsimp only
  rw [ResponseText.response, outcomeWord_beq, memberOf]
  split
  · rw [Member.ofTypeText_of_collection (TypeText.shape_sequence _)]
  · rfl

end Own

/-- The line of a statement says what is stated. -/
theorem Line.read_spaced (unit : ImportPath) {a : Statement} {line : List Char}
    (spaced : Spaced a.fields line) : Line.read unit line = a.line unit := by
  obtain ⟨tail, rfl, absent, later⟩ := Statement.exists_tail spaced
  obtain ⟨more, rfl⟩ := later.exists_append
  rw [Line.read]
  -- each pattern before the one of the statement fails at another word
  cases a with
  | accept name =>
      rw [lineToken?_spaced absent rfl solid_isContentChar name spaced]
      rfl
  | description text =>
      rw [lineToken?_of_other absent rfl rfl, lineText?_spaced absent rfl text spaced]
      rfl
  | parameter p =>
      rw [lineToken?_of_other absent rfl rfl, lineText?_of_other absent rfl rfl,
        parameterLine?_spaced absent unit p spaced]
      rfl
  | response r =>
      have others : after? "Accept".toList (outcomeWord r.success ++ more) = none ∧
          after? "Description".toList (outcomeWord r.success ++ more) = none ∧
          after? "Param".toList (outcomeWord r.success ++ more) = none := by
        cases r.success <;> exact ⟨rfl, rfl, rfl⟩
      rw [lineToken?_of_other absent rfl others.1, lineText?_of_other absent rfl others.2.1,
        parameterLine?_of_other absent unit others.2.2, responseLine?_spaced absent unit r spaced]
      rfl
  | route r =>
      rw [lineToken?_of_other absent rfl rfl, lineText?_of_other absent rfl rfl,
        parameterLine?_of_other absent unit rfl, responseLine?_of_other absent unit rfl rfl,
        routeLine?_spaced absent r spaced]
      rfl
  | title text =>
      rw [lineToken?_of_other absent rfl rfl, lineText?_of_other absent rfl rfl,
        parameterLine?_of_other absent unit rfl, responseLine?_of_other absent unit rfl rfl,
        routeLine?_of_other absent rfl, lineText?_spaced absent rfl text spaced]
      rfl

/-! ## Blocks -/

namespace Statement

/-- The title of a statement. -/
def title? : Statement → Option TrimmedText
  | .title text => some text
  | _ => none

/-- The description of a statement. -/
def description? : Statement → Option TrimmedText
  | .description text => some text
  | _ => none

/-- The content type of a statement. -/
def accept? : Statement → Option (Token isContentChar)
  | .accept name => some name
  | _ => none

/-- The parameter of a statement. -/
def parameter? : Statement → Option ParameterText
  | .parameter p => some p
  | _ => none

/-- The response of a statement. -/
def response? : Statement → Option ResponseText
  | .response r => some r
  | _ => none

/-- The route of a statement. -/
def route? : Statement → Option RouteText
  | .route r => some r
  | _ => none

end Statement

/-- An operation as it is stated. -/
structure OperationText where
  title : TrimmedText
  description : TrimmedText
  accepts : List (Token isContentChar)
  parameters : List ParameterText
  responses : List ResponseText
  route : RouteText

namespace OperationText

/-- The statements of the operation, in any order in which the content types, the parameters and
the responses follow one another as they are listed. -/
structure Listed (o : OperationText) (statements : List Statement) : Prop where
  title : statements.filterMap Statement.title? = [o.title]
  description : statements.filterMap Statement.description? = [o.description]
  accepts : statements.filterMap Statement.accept? = o.accepts
  parameters : statements.filterMap Statement.parameter? = o.parameters
  responses : statements.filterMap Statement.response? = o.responses
  route : statements.filterMap Statement.route? = [o.route]

/-- The operation that is stated. -/
def operation (unit : ImportPath) (o : OperationText) : Operation where
  title := .ofList o.title.chars
  description := .ofList o.description.chars
  accepts := o.accepts.map fun name => contentType (.ofList name.chars)
  parameters := o.parameters.map (ParameterText.parameter unit)
  responses := o.responses.map (ResponseText.response unit)
  path := .ofList o.route.path.chars
  method := .ofList o.route.method.chars
  unit := unit

end OperationText

/-- Parts of one kind are those that the statements have. -/
theorem filterMap_line {α β : Type} {part? : Line → Option α} {part'? : Statement → Option β}
    {said : β → α} (unit : ImportPath) (same : ∀ a, part? (a.line unit) = (part'? a).map said)
    (statements : List Statement) :
    (statements.map (Statement.line unit)).filterMap part? =
      (statements.filterMap part'?).map said := by
  rw [List.filterMap_map, List.map_filterMap]
  exact List.filterMap_congr fun a _ => same a

/-- Only content types have notices. -/
theorem flatMap_notices (unit : ImportPath) (statements : List Statement) :
    (statements.map (Statement.line unit)).flatMap Line.notices =
      (statements.filterMap Statement.accept?).flatMap
        fun name => contentTypeNotices (.ofList name.chars) := by
  induction statements with
  | nil => rfl
  | cons a statements ih =>
      rw [List.map_cons, List.flatMap_cons, ih]
      cases a <;> rfl

/-- A block of spaced statements is read line by line. -/
theorem operationLines_of_statements (unit : ImportPath) {statements : List Statement}
    {lines : List (List Char)}
    (written : List.Forall₂ (fun a line => Spaced a.fields line) statements lines) :
    CommentBlock.operationLines ⟨unit, .ofList (['\n'].intercalate lines)⟩ =
      statements.map (Statement.line unit) := by
  have read : (∀ line ∈ lines, '\n' ∉ line ∧ line ≠ [] ∧ line.getLast? ≠ some '\r') ∧
      lines.map (Line.read unit) = statements.map (Statement.line unit) := by
    induction written with
    | nil => exact ⟨List.forall_mem_nil _, rfl⟩
    | cons spaced _ ih =>
        refine ⟨List.forall_mem_cons.mpr ⟨Statement.whole_of_spaced spaced, ih.1⟩, ?_⟩
        rw [List.map_cons, List.map_cons, Line.read_spaced unit spaced, ih.2]
  rw [CommentBlock.operationLines, String.toList_ofList, lines_intercalate read.1, read.2]

/-- For any order of the lines and any gaps between fields, the block is read as the operation that
is stated. The only notices are those of content types without a full name. -/
theorem operation_of_statements (unit : ImportPath) (o : OperationText)
    (statements : List Statement) (listed : o.Listed statements) (lines : List (List Char))
    (written : List.Forall₂ (fun a line => Spaced a.fields line) statements lines) :
    let block : CommentBlock := ⟨unit, .ofList (['\n'].intercalate lines)⟩
    Operation.ofBlock? block = some (o.operation unit) ∧
    Operation.blockNotices block =
      o.accepts.flatMap fun name => contentTypeNotices (.ofList name.chars) := by
  intro block
  have said := operationLines_of_statements unit written
  have title : (statements.map (Statement.line unit)).filterMap Line.title? =
      (statements.filterMap Statement.title?).map fun text => .ofList text.chars :=
    filterMap_line unit (by rintro ⟨⟩ <;> rfl) statements
  have description : (statements.map (Statement.line unit)).filterMap Line.description? =
      (statements.filterMap Statement.description?).map fun text => .ofList text.chars :=
    filterMap_line unit (by rintro ⟨⟩ <;> rfl) statements
  have accepts : (statements.map (Statement.line unit)).filterMap Line.accept? =
      (statements.filterMap Statement.accept?).map fun name => contentType (.ofList name.chars) :=
    filterMap_line unit (by rintro ⟨⟩ <;> rfl) statements
  have parameters : (statements.map (Statement.line unit)).filterMap Line.parameter? =
      (statements.filterMap Statement.parameter?).map (ParameterText.parameter unit) :=
    filterMap_line unit (by rintro ⟨⟩ <;> rfl) statements
  have responses : (statements.map (Statement.line unit)).filterMap Line.response? =
      (statements.filterMap Statement.response?).map (ResponseText.response unit) :=
    filterMap_line unit (by rintro ⟨⟩ <;> rfl) statements
  have route : (statements.map (Statement.line unit)).filterMap Line.route? =
      (statements.filterMap Statement.route?).map fun r =>
        (.ofList r.path.chars, .ofList r.method.chars) :=
    filterMap_line unit (by rintro ⟨⟩ <;> rfl) statements
  constructor
  · rw [Operation.ofBlock?, said]
    simp only [lastOf, title, description, accepts, parameters, responses, route, listed.title,
      listed.description, listed.accepts, listed.parameters, listed.responses, listed.route]
    rfl
  · rw [Operation.blockNotices, said, flatMap_notices, listed.accepts, lastOf, route, listed.route]
    exact List.append_nil _

/-- An operation on users. The description of a response has quotes and brackets in it. -/
def usersText : OperationText where
  title := ⟨⟨"List users".toList, by decide, by decide, by decide⟩, by decide⟩
  description := ⟨⟨"All [active] users.".toList, by decide, by decide, by decide⟩, by decide⟩
  accepts := [⟨"xml".toList, by decide, by decide⟩, ⟨"text/csv".toList, by decide, by decide⟩]
  parameters := [
    { name := ⟨"page-size".toList, by decide, by decide⟩
      place := ⟨"query", .query, by decide⟩
      type := ⟨"i64".toList, by decide, by decide⟩
      required := ⟨"True".toList, by decide, by decide⟩
      description := ⟨"items, \"20\" at most".toList, by decide, by decide, by decide⟩ }]
  responses := [
    { success := true
      code := 200
      code_lt := by decide
      kind := ⟨"\x7barray\x7d".toList, by decide, by decide⟩
      type := ⟨"models::User".toList, by decide, by decide⟩
      description := ⟨"the \"users\" [of a page]".toList, by decide, by decide, by decide⟩ },
    { success := false
      code := 65535
      code_lt := by decide
      kind := ⟨"\x7bobject\x7d".toList, by decide, by decide⟩
      type := ⟨"Error".toList, by decide, by decide⟩
      description := ⟨" ".toList, by decide, by decide, by decide⟩ }]
  route :=
    ⟨⟨"/users/\x7bid\x7d".toList, by decide, by decide⟩, ⟨"get".toList, by decide, by decide⟩⟩

/-- The statements in the order of the lines. -/
def usersStatements : List Statement :=
  usersText.responses.map .response ++ [.route usersText.route] ++
    usersText.accepts.map .accept ++ [.description usersText.description] ++
    usersText.parameters.map .parameter ++ [.title usersText.title]

/-- The lines, with gaps of several widths. -/
def usersLines : List (List Char) := [
  "@Success".toList ++ (" ".toList ++ ("200".toList ++ ("\t".toList ++ ("\x7barray\x7d".toList ++
    ("  ".toList ++ ("models::User".toList ++
      (" ".toList ++ "\"the \"users\" [of a page]\"".toList))))))),
  "@Failure".toList ++ (" ".toList ++ ("65535".toList ++ (" ".toList ++ ("\x7bobject\x7d".toList ++
    (" ".toList ++ ("Error".toList ++ (" ".toList ++ "\" \"".toList))))))),
  "@Router".toList ++ ("\t\t".toList ++ ("/users/\x7bid\x7d".toList ++
    (" ".toList ++ "[get]".toList))),
  "@Accept".toList ++ (" ".toList ++ "xml".toList),
  "@Accept".toList ++ (" ".toList ++ "text/csv".toList),
  "@Description".toList ++ (" \t ".toList ++ "All [active] users.".toList),
  "@Param".toList ++ (" ".toList ++ ("page-size".toList ++ (" ".toList ++ ("query".toList ++
    (" ".toList ++ ("i64".toList ++ (" ".toList ++ ("True".toList ++
      ("\t".toList ++ "\"items, \"20\" at most\"".toList))))))))),
  "@Title".toList ++ (" ".toList ++ "List users".toList)]

/-- A title in the last line, and two responses of which the first is an array. -/
theorem operation_of_statements_users :
    usersText.Listed usersStatements ∧
    List.Forall₂ (fun a line => Spaced a.fields line) usersStatements usersLines ∧
    Operation.ofBlock? ⟨"app", .ofList (['\n'].intercalate usersLines)⟩ =
      some (usersText.operation "app") ∧
    (usersText.operation "app").accepts = ["application/xml", "text/csv"] ∧
    (usersText.operation "app").responses.map (·.member) = [
      .collection { name := "response 200", origin := "app" }
        (.scalar { name := "response 200", origin := "app" } "models.User" none),
      .scalar { name := "response 65535", origin := "app" } "Error" none] := by
  have listed : usersText.Listed usersStatements := ⟨rfl, rfl, rfl, rfl, rfl, rfl⟩
  have blanks : ∀ gap ∈ [" ", "  ", "\t", "\t\t", " \t "],
      gap.toList ≠ [] ∧ gap.toList.all isBlank = true ∧ '\n' ∉ gap.toList := by
    decide
  have gap : ∀ gap ∈ [" ", "  ", "\t", "\t\t", " \t "], IsGap gap.toList := by
    intro gap among
    obtain ⟨present, blank, noFeed⟩ := blanks gap among
    exact ⟨present, List.all_eq_true.mp blank, noFeed⟩
  have written : List.Forall₂ (fun a line => Spaced a.fields line) usersStatements usersLines := by
    have blank := gap " " (by decide)
    have two := gap "  " (by decide)
    have tab := gap "\t" (by decide)
    have tabs := gap "\t\t" (by decide)
    have mixed := gap " \t " (by decide)
    exact .cons (.cons blank (.cons tab (.cons two (.cons blank (.last _)))))
      (.cons (.cons blank (.cons blank (.cons blank (.cons blank (.last _)))))
        (.cons (.cons tabs (.cons blank (.last _)))
          (.cons (.cons blank (.last _))
            (.cons (.cons blank (.last _))
              (.cons (.cons mixed (.last _))
                (.cons (.cons blank (.cons blank (.cons blank (.cons blank (.cons tab (.last _))))))
                  (.cons (.cons blank (.last _)) .nil)))))))
  refine ⟨listed, written, (operation_of_statements "app" _ _ listed _ written).1, ?_, ?_⟩
  · decide
  · decide +kernel

end ApiDocs.Directive
