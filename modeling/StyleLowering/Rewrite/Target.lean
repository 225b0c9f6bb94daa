/-
# Targets of a rewrite

The bindings that a rewrite looks for, and what it does to their uses.  A
binding may get another identifier in its place, and what it is called with may
be treated as a style or as a styled component.
-/

import StyleLowering.Recipe.Basic
import StyleLowering.Styled

namespace StyleLowering
namespace Rewrite

/-- What happens to the calls and templates of a binding. -/
inductive Treatment where
  /-- Nothing. -/
  | plain
  /-- They are styles, with the label of their declaration if `label` says so. -/
  | styles (label : Bool)
  /-- They make styled components. -/
  | styled (target : StyledTarget)
  deriving DecidableEq, Repr

/-- What happens to the uses of a binding. -/
structure Target where
  /-- The identifier that takes its place; it keeps its own if there is none. -/
  replacement : Option Ident
  treatment : Treatment
  deriving DecidableEq, Repr

/-- The targets of a rewrite; of two for one binding the front one counts. -/
abbrev Targets := List (Id × Target)

namespace Targets

/-- The target that an identifier means. -/
def get? (ts : Targets) (x : Ident) : Option Target := ts.lookup x.id

/-- What takes the place of an identifier, in the same place. -/
def replacement? (ts : Targets) (x : Ident) : Option Ident := do
  let t ← ts.get? x
  let y ← t.replacement
  return y.moveTo x.span

/-- The target that an expression uses, if it is nothing but an identifier. -/
def ofNode? (ts : Targets) : Node → Option Target
  | .ident .reference x => ts.get? x
  | _ => none

/-- The platform of the styled target that an expression uses. -/
def styled? (ts : Targets) (n : Node) : Option StyledTarget :=
  match ts.ofNode? n with
  | some ⟨_, .styled t⟩ => some t
  | _ => none

/-- Whether an expression is the base of a styled component: a styled target
with a tag name behind a dot, or called. -/
def isStyledBase (ts : Targets) : Node → Bool
  | .member _ object (.word _) => (ts.styled? object).isSome
  | .call _ callee _ => (ts.styled? callee).isSome
  | _ => false

end Targets

/-- How a node uses a target. -/
inductive Usage where
  /-- Not as a whole. -/
  | unrelated
  /-- As a style, or as the styles of a styled component. -/
  | styles (label : Bool)
  /-- As a call of a styled target that takes options. -/
  | component (target : StyledTarget)
  /-- As a styled target with a tag name, which becomes a call of `runtime`. -/
  | tag (runtime : Ident) (name : String) (target : StyledTarget)
  deriving DecidableEq, Repr

/-- How a call or a template uses what it is applied to. -/
def Usage.ofCallee (ts : Targets) (callee : Node) : Usage :=
  match ts.ofNode? callee with
  | some ⟨_, .styles label⟩ => .styles label
  | some _ => .unrelated
  | none => if ts.isStyledBase callee then .styles false else .unrelated

/-- How a member access uses its object. -/
def Usage.ofMember (ts : Targets) (object property : Node) : Usage :=
  match object, property with
  | .ident .reference x, .word w =>
    match ts.styled? object, ts.replacement? x with
    | some t, some runtime => if t.isWeb then .tag runtime w.text t else .unrelated
    | _, _ => .unrelated
  | _, _ => .unrelated

/-- How a node uses a target. -/
def Usage.of (ts : Targets) (k : Kind) (parts : List Node) : Usage :=
  match k, parts with
  | .tagged, [callee, _] => ofCallee ts callee
  | .call, [callee, .run args] =>
    match ts.styled? callee with
    | some t => if Styled.takesOptions args then .component t else .unrelated
    | none => ofCallee ts callee
  | .member, [object, property] => ofMember ts object property
  | _, _ => .unrelated

end Rewrite
end StyleLowering
