/-
# One path relative to another

The way from a base directory to a path, by their steps alone.  Equal leading
steps are dropped; every step of the base that is left is taken back by a pair
of dots, and then the rest of the path follows.
-/

import StyleLowering.Path.Component

namespace StyleLowering
namespace Path

/-- The steps from `base` to `path`, where `kept` tells whether a step has been
written down already.  A pair of dots in the base cannot be taken back. -/
def difference (kept : Bool) : (path base : List Component) → Option (List Component)
  | [], [] => some []
  | path, [] => some path
  | [], _ :: bs => (difference true [] bs).map (.parent :: ·)
  | a :: as, b :: bs =>
    if !kept && a = b then difference false as bs
    else if b = .current then (difference true as bs).map (a :: ·)
    else if b = .parent then none
    else some (.parent :: bs.map (fun _ => .parent) ++ a :: as)

/-- A path as seen from a directory; `none` when there is no such path.  When
only one of the two is absolute, an absolute path stands for itself and a
relative one has no relation to the directory. -/
def relative? (path base : List Char) : Option (List Char) :=
  if isAbsolute path != isAbsolute base then
    if isAbsolute path then some path else none
  else (difference false (components path) (components base)).map render

example : relative? "/p/src/App.js".toList "/p".toList = some "src/App.js".toList ∧
    relative? "/p/a".toList "/p/b/c".toList = some "../../a".toList ∧
    relative? "a".toList "/p".toList = none := by decide

end Path
end StyleLowering
