/-
# The css prop

An attribute `css={{…}}` or `css={[…]}` whose literal is pure is compiled to a
call of the style runtime around the literal.  The call stands in the place of
the literal; a source-map comment in it points to the attribute.
-/

import StyleLowering.Css.Call
import StyleLowering.File.State
import StyleLowering.LabelStack
import StyleLowering.Scope.Purity

namespace StyleLowering
namespace CssProp

/-- The literal that can be compiled: a pure object or array literal in braces,
as the value of an attribute named `css`. -/
def literal? : Kind → List Node → Option Node
  | .jsxAttribute, [.word w, .container _ (.inner k h parts)] =>
    if w.text = "css" ∧ (k = .object ∨ k = .array) ∧
        Scope.isPure Context.unresolved (.inner k h parts) then
      some (.inner k h parts)
    else none
  | _, _ => none

/-- The place of a node, if it has one. -/
def placeOf : Node → Span
  | .inner _ h _ => h.place
  | _ => Span.dummy

/-- The call around a literal, for an attribute in a place. -/
def callAround (f : FileInfo) (name : Option String) (callee : Ident) (place : Span)
    (value : Node) : Node :=
  Css.annotate f name <|
    Build.call (placeOf value) (Build.reference callee) <|
      Build.argument value ::
        (if f.sourceMaps then ((f.comment? place).map Build.textArgument).toList else [])

/-- The parts of an attribute with the call around its literal. -/
def wrapParts (f : FileInfo) (name : Option String) (callee : Ident) (h : Head) :
    List Node → List Node
  | [attr, .container hc value] =>
    [attr, .container hc (callAround f name callee h.place value)]
  | parts => parts

/-- The identifier to call in an attribute that is to be compiled; it is injected
when it is first wanted. -/
def enter (k : Kind) (parts : List Node) : FileM (Option Ident) := do
  if (← get).info.compilesCssProp && (literal? k parts).isSome then
    let callee ← FileState.cssIdentifier
    FileState.invalidate
    return some callee
  else return none

/-- Compiles an attribute, and tells whether there was something to compile. -/
def optimize (name : Option String) : Node → FileM (Bool × Node)
  | .inner k h parts => do
    match ← enter k parts with
    | some callee => return (true, .inner k h (wrapParts (← get).info name callee h parts))
    | none => return (false, .inner k h parts)
  | n => pure (false, n)

end CssProp
end StyleLowering
