/-
# The label made of a name

Letters and numbers, `_` and `-` of a name make up its label, in their order, and all other
characters go.  Where none is left there is no label (`Css.label?_some`).  In the arguments of a
style call a label is one text, `label:` with the label and a semicolon (`Css.labelArguments_eq`),
and only where the file has labels.
-/

import StyleLowering.Css.Call

namespace StyleLowering
namespace Css

/-- The characters of a name that may stand in a label. -/
def labelCharacters (name : String) : List Char :=
  name.toList.filter fun c => Text.isAlphanumeric c || c == '_' || c == '-'

/-- Without a name there is no label. -/
theorem label?_none : label? none = none := rfl

/-- **The label made of a name** is what is left of it, if anything is. -/
theorem label?_some (name : String) :
    label? (some name) =
      if labelCharacters name = [] then none else some (String.ofList (labelCharacters name)) := by
  have hleft : sanitizeLabel name = String.ofList (labelCharacters name) := rfl
  rw [label?, Option.map_some, hleft]
  by_cases hnil : labelCharacters name = []
  · rw [hnil, if_pos rfl]
    rfl
  · rw [if_neg hnil, Option.filter_some, if_pos]
    simpa using hnil

end Css

namespace CssProp

open Css

/-- The label of a style call, as arguments: one text, if the file has labels and anything is left
of the name. -/
def labelArguments (f : FileInfo) : Option String → List Node
  | none => []
  | some name =>
    if f.autoLabel = true ∧ labelCharacters name ≠ [] then
      [Build.textArgument ("label:" ++ String.ofList (labelCharacters name) ++ ";")]
    else []

/-- A label is written as a declaration of a style. -/
theorem labelArguments_eq (f : FileInfo) (name : Option String) :
    labelArguments f name =
      if f.autoLabel then
        ((label? name).map fun label => Build.textArgument (labelDeclaration label)).toList
      else [] := by
  cases name with
  | none => rw [label?_none]; split <;> rfl
  | some name =>
    rw [labelArguments, label?_some]
    by_cases hnil : labelCharacters name = [] <;> cases f.autoLabel <;>
      simp [hnil, labelDeclaration]

end CssProp
end StyleLowering
