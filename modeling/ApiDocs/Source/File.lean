import ApiDocs.Source.Grammar.Item
import ApiDocs.Source.Lexer

/-!
# Reading files
-/

namespace ApiDocs.Source

open Grammar Reader

/-- Reads a file from its tokens. -/
def File.ofTokens? (tokens : List Token) : Option File :=
  let g := Grammar.forTokens tokens
  runAll? (do return ⟨← innerAttributes g, ← many g.item⟩) tokens

/-- Reads a file from its text. -/
def File.ofText? (text : List Char) : Option File := do File.ofTokens? (← fileTokens? text)

/-- Reads attributes from a text that holds nothing else. -/
def attributesOfText? (text : List Char) : Option (List Attribute) := do
  let tokens ← tokens? text
  runAll? (outerAttributes (Grammar.forTokens tokens)) tokens

end ApiDocs.Source
