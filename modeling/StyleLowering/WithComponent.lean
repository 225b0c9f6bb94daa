/-
# withComponent calls

A call `x.withComponent(tag)` or `x.withComponent(tag, options)` makes another
styled component, and gets generated options as its second argument.  With a
spread argument it cannot be told which argument is the second one, and that is
an error.
-/

import StyleLowering.File.State
import StyleLowering.Styled

namespace StyleLowering

/-- What can be wrong with a program. -/
inductive StyleError where
  /-- A `withComponent` call has a spread argument. -/
  | withComponentSpread
  deriving DecidableEq, Repr

/-- The wording of an error. -/
def StyleError.message : StyleError → String
  | .withComponentSpread => "withComponent() does not accept spread arguments"

namespace WithComponent

/-- Whether a callee is a `withComponent` member. -/
def isCallee : Node → Bool
  | .member _ _ (.word w) => w.text == "withComponent"
  | _ => false

/-- Whether a call has one or two arguments and calls a `withComponent` member. -/
def applies (callee : Node) (args : List Node) : Bool :=
  isCallee callee && (args.length == 1 || args.length == 2)

/-- Gives a call its options, and tells whether there was something to give. -/
def normalize (name : Option String) : Node → FileM (Except StyleError (Bool × Node))
  | .call h callee args =>
    if !applies callee args then pure (.ok (false, .call h callee args))
    else if args.any Styled.isSpread then pure (.error .withComponentSpread)
    else do
      let options ← FileState.count fun f =>
        Styled.options f (Styled.secondArgument args) name true
      FileState.invalidate
      return .ok (true, .call h callee (Styled.setSecond args options))
  | n => pure (.ok (false, n))

end WithComponent
end StyleLowering
