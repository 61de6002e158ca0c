import ApiDocs.Notice
import ApiDocs.Number.Reading
import ApiDocs.Table

/-!
# Validation constraints

A constraint expression such as `required,min=1,max=10` is a list of keywords with operands. A
keyword given twice keeps its last operand. A numeric accessor gives nothing both when its keyword
is missing and when the operand is no number; the second case is worth a notice, which
`operandNotices` and its companions list in the order in which the operands are read.
-/

namespace ApiDocs

/-- The operands of a constraint expression by keyword. -/
structure Validation where
  operands : Table String := []
deriving DecidableEq, Inhabited

namespace Validation

/-- The keyword and operand of one part of an expression. -/
def readPart (part : List Char) : String × String :=
  match Text.splitOnce '=' part with
  | some (keyword, operand) => (.ofList (Text.trim keyword), .ofList (Text.trim operand))
  | none => (.ofList part, "")

/-- Reads an expression: parts between commas, blank parts left out. -/
def read (expression : String) : Validation :=
  let parts := ((Text.splitAll ',' expression.toList).map Text.trim).filter (!·.isEmpty)
  ⟨parts.foldl (fun table part => let (keyword, operand) := readPart part
                                  table.set keyword operand) []⟩

/-- Whether there is no constraint at all. -/
def isEmpty (v : Validation) : Bool := v.operands.isEmpty

/-- Whether the field must be present. -/
def isRequired (v : Validation) : Bool := v.operands.has "required"

/-- The operand of `eq` as it was written. -/
def equals (v : Validation) : Option String := v.operands.get? "eq"

/-- The number that a keyword gives. -/
def number? (v : Validation) (keyword : String) : Option Binary64 :=
  (v.operands.get? keyword).bind fun operand => Binary64.read? operand.toList

/-- The notice of a keyword whose operand is no number. -/
def operandNotices (v : Validation) (keyword : String) : List Notice :=
  match v.operands.get? keyword with
  | some operand =>
    if (Binary64.read? operand.toList).isSome then [] else [.operandNotNumeric keyword operand]
  | none => []

/-- The exact length or value. -/
def length? (v : Validation) : Option Binary64 := v.number? "len"

/-- The smallest allowed length or value. -/
def min? (v : Validation) : Option Binary64 := (v.number? "min").or (v.number? "gte")

/-- The largest allowed length or value. -/
def max? (v : Validation) : Option Binary64 := (v.number? "max").or (v.number? "lte")

/-- The bound that lengths or values must exceed. -/
def above? (v : Validation) : Option Binary64 := v.number? "gt"

/-- The bound that lengths or values must stay below. -/
def below? (v : Validation) : Option Binary64 := v.number? "lt"

/-- The notices of reading a keyword and, when that gives nothing, its substitute. -/
def orElseNotices (v : Validation) (keyword substitute : String) : List Notice :=
  v.operandNotices keyword
    ++ if (v.number? keyword).isSome then [] else v.operandNotices substitute

/-- The notices of `min?`. -/
def minNotices (v : Validation) : List Notice := v.orElseNotices "min" "gte"

/-- The notices of `max?`. -/
def maxNotices (v : Validation) : List Notice := v.orElseNotices "max" "lte"

/-- The notices of reading all numeric operands as bounds. -/
def boundNotices (v : Validation) : List Notice :=
  v.minNotices ++ v.maxNotices ++ v.operandNotices "len" ++ v.operandNotices "gt"
    ++ v.operandNotices "lt"

end Validation

end ApiDocs
