/-
# Minification

Comments go, strings stay as they are, and white space shrinks to at most one
space.  No space follows one of `{ } : ; ,`, and none precedes one of them but
the colon, since `div :hover` and `div:hover` select different elements.

A style text may be cut by interpolations, and then each stretch is minified by
itself.  White space at the two outer ends goes; at a cut it is kept.
-/

import StyleLowering.Css.Token

namespace StyleLowering
namespace Css

/-- The characters that need no space behind them. -/
def isPunctuation (c : Char) : Bool :=
  c == '{' || c == '}' || c == ':' || c == ';' || c == ','

/-- Whether white space after `prev` and before `next` leaves a space behind.
Either may be missing, at the start and at the end of a stretch; `trimStart`
says that the start is the outer end of the whole text. -/
def keepsSpace (trimStart : Bool) (prev next : Option Char) : Bool :=
  !(prev.isNone && trimStart) && !prev.any isPunctuation &&
    !next.any fun c => isPunctuation c && c != ':'

/-- The text of the tokens, given the character written last and whether white
space was met since. -/
def squeeze (trimStart trimEnd : Bool) (prev : Option Char) (pending : Bool) :
    List Token → List Char
  | [] => if !trimEnd && pending && keepsSpace trimStart prev none then [' '] else []
  | .comment _ :: ts => squeeze trimStart trimEnd prev pending ts
  | .space _ :: ts => squeeze trimStart trimEnd prev true ts
  | .plain text :: ts | .quoted text :: ts =>
    (if pending && keepsSpace trimStart prev text.head? then [' '] else []) ++ text ++
      squeeze trimStart trimEnd (text.getLast?.or prev) false ts

/-- One stretch of a style text, minified.  `isFirst` and `isLast` tell whether
it starts and whether it ends the whole text. -/
def minify (text : String) (isFirst isLast : Bool) : String :=
  String.ofList (squeeze isFirst isLast none false (tokens text.toList))

end Css
end StyleLowering
