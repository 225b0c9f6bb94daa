/-
# Options of styled components

A styled component gets options: on the web a class name of its own, by which
other styles can refer to it, and the label of its declaration.  Options given
by the user stay in front, so that the generated ones win; an argument that is
no object literal is merged when the program runs.
-/

import StyleLowering.Css.Label
import StyleLowering.File.Info
import StyleLowering.Hash.Murmur
import StyleLowering.Syntax.Build

namespace StyleLowering
namespace Styled

/-- The `n`-th class name of a file: an `e`, the hash of the path of the file,
and the number. -/
def className (f : FileInfo) (n : Nat) : String :=
  "e" ++ Hash.hashString f.hashedPath ++ Nat.repr n

/-- The next number of the counter. -/
def nextIndex : StateM Nat Nat := fun n => (n, n + 1)

/-- The next class name of a file. -/
def nextClassName (f : FileInfo) : StateM Nat String := className f <$> nextIndex

/-- The generated properties. -/
def generated (f : FileInfo) (name : Option String) (isWeb : Bool) : StateM Nat (List Node) := do
  let target ← if isWeb then
      (fun c => [Build.property "target" c]) <$> nextClassName f
    else pure []
  let label := if f.autoLabel then
      (Css.label? name).toList.map (Build.property "label")
    else []
  return target ++ label

/-- The function that merges options when the program runs. -/
def objectAssign : Node := Build.member (Build.reference (.global "Object")) "assign"

/-- The options made of those of the user and the generated ones, `none` if there
are none at all; `assign` is the function that merges what cannot be merged
here. -/
def merge (assign : Node) : Option Node → List Node → Option Node
  | none, [] => none
  | none, g => some (Build.object g)
  | some e, [] => some e
  | some (.object h properties), g => some (.object h (properties ++ g))
  | some e, g =>
    some (Build.call Span.dummy assign
      [Build.argument (Build.object []), Build.argument (Build.object g), Build.argument e])

/-- The options of a styled component. -/
def options (f : FileInfo) (existing : Option Node) (name : Option String) (isWeb : Bool) :
    StateM Nat (Option Node) :=
  merge objectAssign existing <$> generated f name isWeb

/-- Whether options have to be merged when the program runs. -/
def needsAssign : Option Node → List Node → Bool
  | some (.object _ _), _ | none, _ | _, [] => false
  | some _, _ :: _ => true

/-- The expression of an argument. -/
def argumentOf : Node → Option Node
  | .inner .argument _ [e] | .inner .spreadArgument _ [e] => some e
  | _ => none

/-- The second argument of a call. -/
def secondArgument : List Node → Option Node
  | _ :: a :: _ => argumentOf a
  | _ => none

/-- Arguments with the second one set, or added behind a single one. -/
def setSecond (args : List Node) : Option Node → List Node
  | none => args
  | some e =>
    match args with
    | [a] => [a, Build.argument e]
    | a :: _ :: rest => a :: Build.argument e :: rest
    | [] => []

/-- Whether an argument is spread. -/
def isSpread : Node → Bool
  | .inner .spreadArgument _ _ => true
  | _ => false

/-- Whether arguments have a place for options: there is one at least, and none is
spread, so that the second one can be told. -/
def takesOptions (args : List Node) : Bool :=
  !args.isEmpty && !args.any isSpread

/-- Arguments with generated options merged into the second one. -/
def addOptions (assign : Node) (options args : List Node) : List Node :=
  if options.isEmpty then args
  else setSecond args (merge assign (secondArgument args) options)

end Styled
end StyleLowering
