/-
# Style calls

The arguments of a call to a style function of the runtime.  A tagged template
becomes such a call: its texts are minified, empty ones left out, and its
expressions stand between them.  A label goes behind all other arguments but a
source-map comment at the end, and a source-map comment is added at the end
unless there is one.
-/

import StyleLowering.Css.Label
import StyleLowering.Css.Minify
import StyleLowering.File.Info
import StyleLowering.Syntax.Build

namespace StyleLowering
namespace Css

/-- The text of a stretch of a template as arguments, none if it is empty. -/
def textArguments (isFirst isLast : Bool) : Node → List Node
  | .leaf (.quasi q) =>
    let text := minify q.text isFirst isLast
    if text.isEmpty then [] else [Build.textArgument text]
  | _ => []

/-- The texts and expressions of a template as arguments, in turn. -/
def templateArguments (isFirst : Bool) : (quasis expressions : List Node) → List Node
  | [], _ => []
  | q :: qs, [] => textArguments isFirst qs.isEmpty q ++ templateArguments false qs []
  | q :: qs, e :: es =>
    textArguments isFirst qs.isEmpty q ++ Build.argument e :: templateArguments false qs es

/-- A tagged template as a call of its tag, in the same place. -/
def callOfTemplate : Node → Node
  | .tagged h tag _ expressions quasis =>
    Build.call h.place tag (templateArguments true quasis expressions)
  | n => n

/-- Whether an argument is a source-map comment. -/
def isCommentArgument : Node → Bool
  | .argument _ (.text s) => SourceMap.isComment s.value
  | _ => false

/-- Whether arguments end with a source-map comment. -/
def endsWithComment (args : List Node) : Bool :=
  args.getLast?.any isCommentArgument

/-- Arguments with one more, in front of a source-map comment at the end. -/
def insertBeforeComment (arg : Node) (args : List Node) : List Node :=
  if endsWithComment args then args.dropLast ++ arg :: args.getLast?.toList
  else args ++ [arg]

/-- Arguments with the label made of a name. -/
def addLabel (f : FileInfo) (name : Option String) (args : List Node) : List Node :=
  match if f.autoLabel then label? name else none with
  | some label => insertBeforeComment (Build.textArgument (labelDeclaration label)) args
  | none => args

/-- Arguments with a source-map comment for a stretch of the file. -/
def addComment (f : FileInfo) (span : Span) (args : List Node) : List Node :=
  if f.sourceMaps && !endsWithComment args then
    args ++ ((f.comment? span).map Build.textArgument).toList
  else args

/-- A style call with its label and its source-map comment. -/
def annotate (f : FileInfo) (name : Option String) : Node → Node
  | .call h callee args => .call h callee (addComment f h.place (addLabel f name args))
  | n => n

end Css
end StyleLowering
