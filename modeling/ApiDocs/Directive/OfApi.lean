import ApiDocs.Directive
import ApiDocs.Text.Pattern

/-!
# The interface of directive lines

Each line says at most one thing about the interface. Later lines replace what earlier ones said,
and groups add up.
-/

namespace ApiDocs.Directive

open Text

/-! ## Patterns -/

/-- Everything up to the end of the line. -/
def isInLine (c : Char) : Bool := c != '\n'

/-- The characters of a base path. -/
def isBasePath (c : Char) : Bool := c.isAlphanum || c == '/' || c == '-'

/-- `@Word text`, with the text up to the end of the line. -/
def textPattern (word : String) : Pattern :=
  [.exactly word.toList, .run isBlank, .capture isInLine]

/-- `@Word token`, with a token of the given characters. -/
def tokenPattern (word : String) (member : Char → Bool) : Pattern :=
  [.exactly word.toList, .run isBlank, .capture member]

/-- `@SubApi Name [/path]`. -/
def subApiPattern : Pattern :=
  [.exactly "@SubApi".toList, .run isBlank, .capture Char.isAlphanum, .run isBlank,
   .exactly ['['], .capture isBasePath, .exactly [']']]

/-- The single text that a pattern captures in a line. -/
def captured? (pattern : Pattern) (line : List Char) : Option (List Char) :=
  (pattern.captures line).bind List.head?

/-! ## Lines -/

/-- What a line says about the interface. -/
inductive ApiLine where
  | description (text : String)
  | title (text : String)
  | version (text : String)
  | basePath (path : String)
  | subApi (name path : String)
  | other
deriving DecidableEq

/-- The text captured after a word, without blanks at its ends. -/
def lineText? (word : String) (line : List Char) : Option String :=
  (captured? (textPattern word) line).map fun text => .ofList (trim text)

/-- The token captured after a word. -/
def lineToken? (word : String) (member : Char → Bool) (line : List Char) : Option String :=
  (captured? (tokenPattern word member) line).map String.ofList

/-- The group that a line declares. -/
def subApi? (line : List Char) : Option ApiLine :=
  match subApiPattern.captures line with
  | some [name, path] => some (.subApi (.ofList name) (.ofList path))
  | _ => none

/-- Reads a line; of several words in one line the first of this order counts. -/
def ApiLine.read (line : List Char) : ApiLine :=
  ((lineText? "@APIDescription" line).map .description
    |>.or ((lineText? "@APITitle" line).map .title)
    |>.or ((lineToken? "@APIVersion" (fun c => isDigit c || c == '.') line).map .version)
    |>.or ((lineToken? "@BasePath" isBasePath line).map .basePath)
    |>.or (subApi? line)).getD .other

/-- The interface after one more line. -/
def Api.add (api : Api) : ApiLine → Api
  | .description text => { api with description := text }
  | .title text => { api with title := text }
  | .version text => { api with version := text }
  | .basePath path => { api with basePath := path }
  | .subApi name path => { api with subApis := api.subApis ++ [⟨name, path⟩] }
  | .other => api

/-- The interface that blocks describe together. -/
def Api.ofBlocks (blocks : List CommentBlock) : Api :=
  (blocks.flatMap fun block => (lines block.text.toList).map ApiLine.read).foldl Api.add {}

end ApiDocs.Directive
