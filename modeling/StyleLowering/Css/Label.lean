/-
# Labels

The name of a declaration becomes part of a class name, and only letters,
numbers, `_` and `-` of it survive.  In the arguments of a style call it is
written as a `label` declaration.
-/

import StyleLowering.Text.Alphanumeric

namespace StyleLowering
namespace Css

/-- A character that may stand in a label. -/
def isLabelChar (c : Char) : Bool :=
  Text.isAlphanumeric c || c == '_' || c == '-'

/-- A name without the characters that may not stand in a label. -/
def sanitizeLabel (label : String) : String :=
  String.ofList (label.toList.filter isLabelChar)

/-- The label made of a name, `none` if nothing is left of it. -/
def label? (name : Option String) : Option String :=
  (name.map sanitizeLabel).filter (· ≠ "")

/-- A label as a declaration in a style text. -/
def labelDeclaration (label : String) : String :=
  "label:" ++ label ++ ";"

end Css
end StyleLowering
