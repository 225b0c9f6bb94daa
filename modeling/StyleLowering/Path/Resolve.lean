/-
# Resolving an import specifier

A specifier that starts with a dot is taken relative to a directory and
normalised by the text alone: dots vanish, a pair of dots takes back the name
before it, stays at the root, and is kept where a relative path has nothing
left to take back.  Any other specifier names a package and stands for itself.
-/

import StyleLowering.Path.Component

namespace StyleLowering
namespace Path

/-- A step taken from a normalised path, the last step of which is at the head. -/
def push : List Component → Component → List Component
  | rev, .current => rev
  | .normal _ :: rev, .parent => rev
  | .root :: rev, .parent => .root :: rev
  | rev, c => c :: rev

/-- The steps of a path with lone dots and taken-back names removed. -/
def normalSteps (cs : List Component) : List Component :=
  (cs.foldl push []).reverse

/-- A path without lone dots, doubled slashes and taken-back names. -/
def normalize (path : List Char) : List Char :=
  render (normalSteps (components path))

/-- The key under which a specifier is compared with the configured instances. -/
def resolve (specifier base : String) : String :=
  match specifier.toList with
  | '.' :: rest => String.ofList (normalize (join base.toList ('.' :: rest)))
  | _ => specifier

example : normalize "/a/./b/../../..//c".toList = "/c".toList ∧
    normalize "../a/../../b".toList = "../../b".toList := by decide

end Path
end StyleLowering
